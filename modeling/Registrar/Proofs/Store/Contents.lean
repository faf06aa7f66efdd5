import Mathlib.Data.List.Induction
import Mathlib.Data.Set.Card
import Registrar.Proofs.Store.Catalogue

/-!
What a store holds after any requests. Under a key there is the value that was put there last, unless
the key was erased since:

* `get?_run`: every look-up answers so;
* `scan_finds_puts`: a scan finds exactly these entries among the keys that begin as wanted, in
  ascending order, and either way of counting counts as many.
-/

namespace Registrar.Store

/-- The store after some requests of an empty one. -/
def run (requests : List Request) : Store :=
  requests.foldl (fun store request => (store.serve request).2) empty

/-- The request puts or erases the value under a key. -/
def Request.Touches (request : Request) (key : Bytes) : Prop :=
  request = .erase key ∨ ∃ value, request = .put key value

/-- The value was put under the key, which was neither put nor erased since. -/
def LastPut (requests : List Request) (key value : Bytes) : Prop :=
  ∃ before later, requests = before ++ .put key value :: later ∧
    ∀ request ∈ later, ¬ request.Touches key

theorem run_concat (requests : List Request) (request : Request) :
    run (requests ++ [request]) = ((run requests).serve request).2 := by
  simp [run]

section

variable {store : Store} {requests : List Request} {request : Request} {key value : Bytes}

/-- What is found after one request was put by it, or was there before and is untouched. -/
theorem get?_serve_iff : (store.serve request).2.get? key = some value ↔
    request = .put key value ∨ (store.get? key = some value ∧ ¬ request.Touches key) := by
  cases request with
  | put written given =>
    by_cases same : key = written
    · subst same
      simp [serve, get?_put, Request.Touches]
    · simp [serve, get?_put, Request.Touches, same, Ne.symm same]
  | erase erased =>
    by_cases same : key = erased
    · subst same
      simp [serve, get?_erase, Request.Touches]
    · simp [serve, get?_erase, Request.Touches, same, Ne.symm same]
  | get | «exists» | scan | count | flush => simp [serve, Request.Touches]

/-- A value that was put last after one more request was put by it, or before and is untouched. -/
theorem lastPut_concat : LastPut (requests ++ [request]) key value ↔
    request = .put key value ∨ (LastPut requests key value ∧ ¬ request.Touches key) := by
  constructor
  · rintro ⟨before, later, split, untouched⟩
    rcases List.eq_nil_or_concat later with rfl | ⟨middle, last, rfl⟩
    · obtain ⟨-, same⟩ := List.append_inj' split rfl
      exact .inl (List.head_eq_of_cons_eq same)
    · have split : requests ++ [request] = (before ++ .put key value :: middle) ++ [last] := by
        simpa using split
      obtain ⟨rfl, same⟩ := List.append_inj' split rfl
      obtain rfl := List.head_eq_of_cons_eq same
      refine .inr ⟨⟨before, middle, rfl, fun other there => untouched other ?_⟩, untouched _ ?_⟩
      · simp [there]
      · simp
  · rintro (rfl | ⟨⟨before, later, rfl, untouched⟩, other⟩)
    · exact ⟨requests, [], rfl, fun _ there => nomatch there⟩
    · refine ⟨before, later ++ [request], by simp, fun last there => ?_⟩
      rcases List.mem_append.1 there with there | there
      · exact untouched last there
      · rw [List.mem_singleton.1 there]
        exact other

/-- Under a key there is the value that was put there last. -/
theorem get?_run : (run requests).get? key = some value ↔ LastPut requests key value := by
  induction requests using List.reverseRecOn with
  | nil =>
    refine iff_of_false (fun there => nomatch there) ?_
    rintro ⟨before, later, split, -⟩
    simp at split
  | append_singleton requests request ih =>
    rw [run_concat, get?_serve_iff, lastPut_concat, ih]

end

theorem attempt_countByScan {ε : Type} (store : Store) (lift : StoreError → ε) (start : Bytes) :
    store.attempt (countByScan lift start) = (.ok (store.scan start).length, store) := rfl

/-- A store has as many entries as there are keys under which something is found. -/
theorem size_eq_ncard (store : Store) :
    store.size = Set.ncard {key | ∃ value, store.get? key = some value} := by
  have whole : store.scan [] = store.entries := by simp [scan_eq_filter]
  have distinct : (store.entries.map (·.1)).Nodup := by
    rw [← whole]
    exact nodup_keys_scan store []
  have keys : {key | ∃ value, store.get? key = some value} =
      ((store.entries.map (·.1)).toFinset : Set Bytes) := by
    ext key
    simp [get?_eq_some_iff]
  rw [keys, Set.ncard_coe_finset, List.toFinset_card_of_nodup distinct, List.length_map]
  rfl

/-- After any requests a scan finds exactly the keys that begin as wanted and were put and not erased
since, each with the value last put, in ascending order of the bytes. Counting along the entries and
counting what a scan finds both come to the length of the scan, and the size of the store is the number of
keys that were put and not erased since. -/
theorem scan_finds_puts (requests : List Request) (start : Bytes) :
    let store := run requests
    (∀ key value, (key, value) ∈ store.scan start ↔ start <+: key ∧ LastPut requests key value) ∧
      ((store.scan start).map (·.1)).Pairwise (· < ·) ∧
      store.count start = (store.scan start).length ∧
      store.attempt (countByScan id start) = (.ok (store.scan start).length, store) ∧
      store.size = Set.ncard {key | ∃ value, LastPut requests key value} := by
  intro store
  refine ⟨fun key value => ?_, ?_, ?_, attempt_countByScan store id start, ?_⟩
  · rw [mem_scan, get?_run, List.isPrefixOf_iff_prefix, and_comm]
  · exact List.pairwise_map.2 (sorted_scan store start)
  · rw [count_eq_length, List.length_map]
  · simp only [size_eq_ncard, store, get?_run]

/-- The key itself is found and those that go on, but neither a shorter key nor the next one. -/
example : (run [.put [1, 0xFF] [3], .put [1, 0xFF, 0] [5], .put [2] [6], .put [1] [7],
    .put [1, 0xFF] [4]]).scan [1, 0xFF] = [([1, 0xFF], [4]), ([1, 0xFF, 0], [5])] := by
  decide

end Registrar.Store
