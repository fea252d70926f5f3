import ZolanaTvc.Control.Except
import ZolanaTvc.Wallet.Text

/-!
# Batched calls

The enclave takes a bounded number of items in one request, in a bounded number of bytes. The client
sends its items page by page, and halves a page that is too large until it fits.

## Main results

* `batched_sound`: the answers are one per item in item order, each item is part of one successful call,
  and only an item that is too large alone is refused for its size.
-/

namespace ZolanaTvc.Wallet.EnclaveKeys

open Except

def MAX_ITEMS_PER_BATCH : ℕ := 256

variable {Item Answer : Type}

/-- A batch that was sent and what it was answered. -/
abbrev Call (Item Answer : Type) := List Item × Except Thrown (List Answer)

/-- The calls made so far and the answers kept of them. -/
structure Progress (Item Answer : Type) where
  calls : List (Call Item Answer)
  answers : List Answer

/-- The underlying call: what it answers a batch may depend on how many calls were made before. -/
abbrev Underlying (Item Answer : Type) := ℕ → List Item → Except Thrown (List Answer)

variable (call : Underlying Item Answer)

def send (batch : List Item) (p : Progress Item Answer) : Except Thrown Unit × Progress Item Answer :=
  let answer := call p.calls.length batch
  let p := { p with calls := p.calls ++ [(batch, answer)] }
  match answer with
  | .error thrown =>
    -- A single item that cannot fit must fail rather than retry forever.
    if thrown ≠ spr "RequestTooLarge" ∨ batch.length < 2 then (.error thrown, p)
    else
      let middle := batch.length / 2
      match send (batch.take middle) p with
      | (.error thrown, p) => (.error thrown, p)
      | (.ok _, p) => send (batch.drop middle) p
  | .ok answer =>
    if answer.length ≠ batch.length then (.error .platform, p)
    else (.ok (), { p with answers := p.answers ++ answer })
termination_by batch.length
decreasing_by
  all_goals
    simp only [List.length_take, List.length_drop]
    omega

/-- The pages from an index on. -/
def sendFrom (items : List Item) (start : ℕ) (p : Progress Item Answer) :
    Except Thrown Unit × Progress Item Answer :=
  if start < items.length then
    match send call ((items.drop start).take MAX_ITEMS_PER_BATCH) p with
    | (.error thrown, p) => (.error thrown, p)
    | (.ok _, p) => sendFrom items (start + MAX_ITEMS_PER_BATCH) p
  else (.ok (), p)
termination_by items.length - start
decreasing_by
  rw [MAX_ITEMS_PER_BATCH]
  omega

/-- The answers, or why there are none, and the calls that were made. -/
def batched (items : List Item) : Except Thrown (List Answer) × List (Call Item Answer) :=
  match sendFrom call items 0 ⟨[], []⟩ with
  | (.error thrown, p) => (.error thrown, p.calls)
  | (.ok _, p) => (.ok p.answers, p.calls)

section Served

/-- The calls that were answered. -/
def served (calls : List (Call Item Answer)) : List (List Item × List Answer) :=
  calls.filterMap fun c => c.2.toOption.map fun answer => (c.1, answer)

theorem served_append (calls calls' : List (Call Item Answer)) :
    served (calls ++ calls') = served calls ++ served calls' :=
  List.filterMap_append

theorem served_error (batch : List Item) (thrown : Thrown) (calls : List (Call Item Answer)) :
    served ((batch, .error thrown) :: calls) = served calls :=
  List.filterMap_cons_none rfl

/-- What the calls for some items came to: they cover the items if all went well, and every failure
shows. -/
structure Served (items : List Item) (answers : List Answer) (result : Except Thrown Unit)
    (calls : List (Call Item Answer)) : Prop where
  bounded : ∀ c ∈ calls, c.1 ≠ [] ∧ c.1.length ≤ MAX_ITEMS_PER_BATCH
  covers : result = .ok () → ((served calls).map Prod.fst).flatten = items ∧
    ((served calls).map Prod.snd).flatten = answers
  aligned : result = .ok () → ∀ c ∈ served calls, c.2.length = c.1.length
  tooLarge : result = .error (spr "RequestTooLarge") →
    ∃ c ∈ calls, c.1.length = 1 ∧ c.2 = .error (spr "RequestTooLarge")

variable {items items' : List Item} {answers answers' : List Answer} {result : Except Thrown Unit}
  {calls calls' : List (Call Item Answer)} {batch : List Item}

theorem Served.nil : Served ([] : List Item) ([] : List Answer) (.ok ()) [] where
  bounded := by simp
  covers _ := ⟨rfl, rfl⟩
  aligned _ := by simp [served]
  tooLarge h := by cases h

theorem Served.append (h : Served items answers (.ok ()) calls)
    (h' : Served items' answers' result calls') :
    Served (items ++ items') (answers ++ answers') result (calls ++ calls') where
  bounded := List.forall_mem_append.2 ⟨h.bounded, h'.bounded⟩
  covers hok := by
    obtain ⟨hitems, hanswers⟩ := h.covers rfl
    obtain ⟨hitems', hanswers'⟩ := h'.covers hok
    rw [served_append, List.map_append, List.map_append, List.flatten_append, List.flatten_append,
      hitems, hanswers, hitems', hanswers']
    exact ⟨rfl, rfl⟩
  aligned hok := by
    rw [served_append]
    exact List.forall_mem_append.2 ⟨h.aligned rfl, h'.aligned hok⟩
  tooLarge herror := by
    obtain ⟨c, hc, hone⟩ := h'.tooLarge herror
    exact ⟨c, List.mem_append_right _ hc, hone⟩

/-- After a failure nothing more is sent. -/
theorem Served.stop {thrown : Thrown} (h : Served items answers (.error thrown) calls) :
    Served items' answers' (.error thrown) calls where
  bounded := h.bounded
  covers hok := by cases hok
  aligned hok := by cases hok
  tooLarge := h.tooLarge

/-- A batch that is too large is left out. -/
theorem Served.retry {thrown : Thrown} (h : Served items answers result calls) (hbatch : batch ≠ [])
    (hlength : batch.length ≤ MAX_ITEMS_PER_BATCH) :
    Served items answers result ((batch, .error thrown) :: calls) where
  bounded := List.forall_mem_cons.2 ⟨⟨hbatch, hlength⟩, h.bounded⟩
  covers hok := by
    rw [served_error]
    exact h.covers hok
  aligned hok := by
    rw [served_error]
    exact h.aligned hok
  tooLarge herror := by
    obtain ⟨c, hc, hone⟩ := h.tooLarge herror
    exact ⟨c, List.mem_cons_of_mem _ hc, hone⟩

/-- The last call of a batch, that was answered or failed for good. -/
theorem Served.single {answer : Except Thrown (List Answer)} (hbatch : batch ≠ [])
    (hlength : batch.length ≤ MAX_ITEMS_PER_BATCH)
    (hok : result = .ok () → answer = .ok answers ∧ answers.length = batch.length)
    (herror : result = .error (spr "RequestTooLarge") →
      answer = .error (spr "RequestTooLarge") ∧ batch.length = 1) :
    Served batch answers result [(batch, answer)] where
  bounded := by simpa using ⟨hbatch, hlength⟩
  covers h := by
    obtain ⟨rfl, -⟩ := hok h
    simp [served, Except.toOption]
  aligned h := by
    obtain ⟨rfl, haligned⟩ := hok h
    simpa [served, Except.toOption] using haligned
  tooLarge h := ⟨_, List.mem_singleton_self _, (herror h).2, (herror h).1⟩

end Served

section Runs

/-- What `send` does to the progress. -/
theorem send_served (batch : List Item) (p : Progress Item Answer) (hbatch : batch ≠ [])
    (hlength : batch.length ≤ MAX_ITEMS_PER_BATCH) : ∃ calls answers,
    (send call batch p).2.calls = p.calls ++ calls ∧
      ((send call batch p).1 = .ok () → (send call batch p).2.answers = p.answers ++ answers) ∧
        Served batch answers (send call batch p).1 calls ∧ calls.length < 2 * batch.length := by
  have hpos : 0 < batch.length := List.length_pos_iff.2 hbatch
  -- Halving: the induction is on the length of the batch.
  induction hn : batch.length using Nat.strongRecOn generalizing batch p with
  | ind n ih =>
    subst hn
    rw [send]
    cases hanswer : call p.calls.length batch with
    | ok answer =>
      by_cases haligned : answer.length = batch.length
      · simp only [haligned, ne_eq, not_true, if_false]
        refine ⟨_, answer, rfl, fun _ => rfl, .single hbatch hlength (fun _ => ⟨rfl, haligned⟩) ?_, ?_⟩
        · intro h
          cases h
        · rw [List.length_singleton]
          omega
      · simp only [haligned, ne_eq, not_false_eq_true, if_true]
        refine ⟨_, [], rfl, ?_, .single hbatch hlength ?_ ?_, ?_⟩
        · intro h
          cases h
        · intro h
          cases h
        · intro h
          cases h
        · rw [List.length_singleton]
          omega
    | error thrown =>
      by_cases hfinal : thrown ≠ spr "RequestTooLarge" ∨ batch.length < 2
      · simp only [hfinal, if_true]
        refine ⟨_, [], rfl, ?_, .single hbatch hlength ?_ ?_, ?_⟩
        · intro h
          cases h
        · intro h
          cases h
        · intro h
          obtain rfl := Except.error.inj h
          exact ⟨rfl, by simp at hfinal; omega⟩
        · rw [List.length_singleton]
          omega
      · simp only [hfinal, if_false]
        -- Too large and more than one item: the batch is sent again in halves.
        obtain ⟨htooLarge, hsplit⟩ := not_or.1 hfinal
        -- Both halves are shorter and not empty.
        have htake : (batch.take (batch.length / 2)).length = batch.length / 2 := by
          rw [List.length_take]
          omega
        have hdrop : (batch.drop (batch.length / 2)).length = batch.length - batch.length / 2 :=
          List.length_drop
        obtain ⟨calls, answers, hcalls, hanswers, hserved, hcount⟩ :=
          ih _ (by omega) (batch.take (batch.length / 2)) { p with calls := p.calls ++ [(batch, .error thrown)] }
            (List.length_pos_iff.1 (by omega)) (by omega) (by omega) rfl
        split
        · next thrown' p' hsend =>
          -- The first half failed for good, and the second is not sent.
          rw [hsend] at hcalls hserved
          refine ⟨(batch, .error thrown) :: calls, [], ?_, ?_, (hserved.stop).retry hbatch hlength, ?_⟩
          · rw [hcalls, List.append_assoc, List.singleton_append]
          · intro h
            cases h
          · rw [List.length_cons]
            omega
        · next u p' hsend =>
          rw [hsend] at hcalls hanswers hserved
          obtain ⟨calls', answers', hcalls', hanswers', hserved', hcount'⟩ :=
            ih _ (by omega) (batch.drop (batch.length / 2)) p'
              (List.length_pos_iff.1 (by omega)) (by omega) (by omega) rfl
          have hwhole := hserved.append hserved'
          rw [List.take_append_drop] at hwhole
          refine ⟨(batch, .error thrown) :: (calls ++ calls'), answers ++ answers', ?_, ?_,
            hwhole.retry hbatch hlength, ?_⟩
          · rw [hcalls', hcalls, List.append_assoc, List.append_assoc, List.singleton_append]
          · intro hok
            rw [hanswers' hok, hanswers rfl, List.append_assoc]
          · rw [List.length_cons, List.length_append]
            omega

/-- Each call is answered as the underlying call answers it. -/
def Logged (calls : List (Call Item Answer)) : Prop :=
  ∀ i c, calls[i]? = some c → c.2 = call i c.1

variable {call}

theorem Logged.concat {calls : List (Call Item Answer)} (h : Logged call calls) (batch : List Item) :
    Logged call (calls ++ [(batch, call calls.length batch)]) := by
  intro i c hc
  rw [List.getElem?_append] at hc
  split_ifs at hc with hi
  · exact h i c hc
  · obtain ⟨hzero, hc⟩ := List.getElem?_eq_some_iff.1 hc
    obtain rfl : i = calls.length := by
      rw [List.length_singleton] at hzero
      omega
    simp at hc
    rw [← hc]

theorem send_logged (batch : List Item) (p : Progress Item Answer) (h : Logged call p.calls) :
    Logged call (send call batch p).2.calls := by
  induction hn : batch.length using Nat.strongRecOn generalizing batch p with
  | ind n ih =>
    subst hn
    rw [send]
    have hconcat := h.concat batch
    cases hanswer : call p.calls.length batch with
    | ok answer =>
      rw [hanswer] at hconcat
      by_cases haligned : answer.length = batch.length
      · simpa only [haligned, ne_eq, not_true, if_false] using hconcat
      · simpa only [haligned, ne_eq, not_false_eq_true, if_true] using hconcat
    | error thrown =>
      rw [hanswer] at hconcat
      by_cases hfinal : thrown ≠ spr "RequestTooLarge" ∨ batch.length < 2
      · simpa only [hfinal, if_true] using hconcat
      · simp only [hfinal, if_false]
        have htake := ih _ (by rw [List.length_take]; omega) (batch.take (batch.length / 2))
          { p with calls := p.calls ++ [(batch, .error thrown)] } hconcat rfl
        split
        · next hsend => rwa [hsend] at htake
        · next hsend =>
          rw [hsend] at htake
          exact ih _ (by rw [List.length_drop]; omega) (batch.drop (batch.length / 2)) _ htake rfl

/-- What the pages from an index on come to. -/
theorem sendFrom_served (items : List Item) (start : ℕ) (p : Progress Item Answer)
    (h : Logged call p.calls) : ∃ calls answers,
    (sendFrom call items start p).2.calls = p.calls ++ calls ∧
      ((sendFrom call items start p).1 = .ok () →
        (sendFrom call items start p).2.answers = p.answers ++ answers) ∧
      Served (items.drop start) answers (sendFrom call items start p).1 calls ∧
      calls.length ≤ 2 * (items.length - start) ∧
      Logged call (sendFrom call items start p).2.calls := by
  -- The induction is on the items that are left.
  induction hn : items.length - start using Nat.strongRecOn generalizing start p with
  | ind n ih =>
    subst hn
    rw [sendFrom]
    by_cases hstart : start < items.length
    · simp only [hstart, if_true]
      have hlength : ((items.drop start).take MAX_ITEMS_PER_BATCH).length =
          min MAX_ITEMS_PER_BATCH (items.length - start) := by
        rw [List.length_take, List.length_drop]
      have hpage : 0 < MAX_ITEMS_PER_BATCH := by decide
      obtain ⟨calls, answers, hcalls, hanswers, hserved, hcount⟩ :=
        send_served call ((items.drop start).take MAX_ITEMS_PER_BATCH) p
          (List.length_pos_iff.1 (by omega)) (by omega)
      have hlogged := send_logged ((items.drop start).take MAX_ITEMS_PER_BATCH) p h
      split
      · next thrown p' hsend =>
        -- A page that fails ends the whole call.
        rw [hsend] at hcalls hserved hlogged
        refine ⟨calls, [], hcalls, ?_, hserved.stop, by omega, hlogged⟩
        intro hok
        cases hok
      · next u p' hsend =>
        rw [hsend] at hcalls hanswers hserved hlogged
        obtain ⟨calls', answers', hcalls', hanswers', hserved', hcount', hlogged'⟩ :=
          ih _ (by omega) (start + MAX_ITEMS_PER_BATCH) p' hlogged rfl
        have hwhole := hserved.append hserved'
        -- This page and those after it are all that was left.
        rw [← List.drop_drop, List.take_append_drop] at hwhole
        refine ⟨calls ++ calls', answers ++ answers', ?_, ?_, hwhole, ?_, hlogged'⟩
        · rw [hcalls', hcalls, List.append_assoc]
        · intro hok
          rw [hanswers' hok, hanswers rfl, List.append_assoc]
        · rw [List.length_append]
          omega
    · simp only [hstart, if_false]
      rw [List.drop_eq_nil_of_le (Nat.le_of_not_lt hstart)]
      exact ⟨[], [], (List.append_nil _).symm, fun _ => (List.append_nil _).symm, .nil, Nat.zero_le _, h⟩

/-- Whatever the calls answer, the client ends. If it answers, it is with one answer per item in item
order, each item taken by one call that succeeded. It sends no empty batch and none that is too long.
It refuses for size only an item that is too large alone, and it refuses a call that answered another
number of values. -/
theorem batched_sound (call : Underlying Item Answer) (items : List Item) :
    (batched call items).2.length ≤ 2 * items.length ∧ Logged call (batched call items).2 ∧
      (∀ c ∈ (batched call items).2, c.1 ≠ [] ∧ c.1.length ≤ MAX_ITEMS_PER_BATCH) ∧
      (∀ answers, (batched call items).1 = .ok answers → answers.length = items.length ∧
        ((served (batched call items).2).map Prod.fst).flatten = items ∧
        ((served (batched call items).2).map Prod.snd).flatten = answers ∧
        ∀ c ∈ served (batched call items).2, c.2.length = c.1.length) ∧
      ((batched call items).1 = .error (spr "RequestTooLarge") →
        ∃ c ∈ (batched call items).2, c.1.length = 1 ∧ c.2 = .error (spr "RequestTooLarge")) ∧
      ∀ c ∈ served (batched call items).2, c.2.length ≠ c.1.length →
        ∃ thrown, (batched call items).1 = .error thrown := by
  have hnil : Logged call [] := fun i c hc => by simp at hc
  obtain ⟨calls, answers, hcalls, hanswers, hserved, hcount, hlogged⟩ :=
    sendFrom_served items 0 ⟨[], []⟩ hnil
  rw [List.drop_zero] at hserved
  rw [Nat.sub_zero] at hcount
  rw [List.nil_append] at hcalls
  rw [hcalls] at hlogged
  unfold batched
  split
  · next thrown p hsend =>
    rw [hsend] at hcalls hserved
    rw [hcalls]
    refine ⟨hcount, hlogged, hserved.bounded, ?_, ?_, fun _ _ _ => ⟨thrown, rfl⟩⟩
    · intro answers h
      cases h
    · intro h
      obtain rfl := Except.error.inj h
      exact hserved.tooLarge rfl
  · next u p hsend =>
    rw [hsend] at hcalls hanswers hserved
    obtain ⟨hitems, hflat⟩ := hserved.covers rfl
    rw [hcalls]
    refine ⟨hcount, hlogged, hserved.bounded, ?_, ?_, ?_⟩
    · intro answers' h
      obtain rfl := Except.ok.inj h
      rw [hanswers rfl, List.nil_append]
      refine ⟨?_, hitems, hflat, hserved.aligned rfl⟩
      -- Each call answered one value per item, so the sums are equal.
      rw [← hflat, ← hitems, List.length_flatten, List.length_flatten, List.map_map, List.map_map]
      exact congrArg List.sum (List.map_congr_left fun c hc => hserved.aligned rfl c hc)
    · intro h
      cases h
    · intro c hc hne
      exact absurd (hserved.aligned rfl c hc) hne

end Runs

end ZolanaTvc.Wallet.EnclaveKeys
