import ZolanaTvc.Enclave.Custody
import ZolanaTvc.EndToEnd.Admission
import ZolanaTvc.EndToEnd.ReplayWindow
import ZolanaTvc.EndToEnd.Revocation
import ZolanaTvc.Gateway.LedgerRuns
import ZolanaTvc.Gateway.Limits
import ZolanaTvc.Gateway.SingleFlight
import ZolanaTvc.Wallet.ApiKeySignatures
import ZolanaTvc.Wallet.Batched
import ZolanaTvc.Wallet.BootProof
import ZolanaTvc.Wallet.Client
import ZolanaTvc.Wallet.ClientKeys
import ZolanaTvc.Wallet.LowS
import ZolanaTvc.Wallet.MessageKinds
import ZolanaTvc.Wallet.ProverRuns
