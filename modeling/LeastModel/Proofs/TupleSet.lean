import LeastModel.Proofs.FirstOccurrences
import LeastModel.Relation.TupleSet

/-!
# Insertion into sets of tuples

A set that is built by insertion is well formed, and of a well-formed set the
index can be forgotten: `contains` is membership in the list of tuples, and
inserting a list appends those of its tuples that are new, each once, in order.
Nothing here depends on the digest.
-/

namespace LeastModel.TupleSet

variable {digest : Digest}

theorem wellFormed_empty : (empty : TupleSet digest).WellFormed where
  nodup := List.nodup_nil
  places_eq := by
    intro h
    simp [places, empty, size]

/-- The places of a hash are those of the tuples with that hash. -/
theorem WellFormed.mem_places
    {s : TupleSet digest} (hs : s.WellFormed) {h : UInt64} {i : Nat} :
    i ∈ s.places h ↔ ∃ t, s.tuples[i]? = some t ∧ t.hash digest = h := by
  rw [hs.places_eq, List.mem_filter, List.mem_range]
  constructor
  · rintro ⟨-, hi⟩
    simpa [Option.map_eq_some_iff] using hi
  · rintro ⟨t, ht, rfl⟩
    obtain ⟨hlt, -⟩ := Array.getElem?_eq_some_iff.mp ht
    exact ⟨hlt, by simp [ht]⟩

theorem WellFormed.contains_iff
    {s : TupleSet digest} (hs : s.WellFormed) (t : Tuple) :
    s.contains t = true ↔ t ∈ s.toList := by
  rw [contains, holdsAt, List.any_eq_true, toList, Array.mem_toList_iff, Array.mem_iff_getElem?]
  constructor
  · rintro ⟨i, -, hi⟩
    exact ⟨i, by simpa using hi⟩
  · rintro ⟨i, hi⟩
    exact ⟨i, hs.mem_places.mpr ⟨t, hi, rfl⟩, by simpa using hi⟩

theorem insert_of_mem
    {s : TupleSet digest} (hs : s.WellFormed) {t : Tuple} (ht : t ∈ s.toList) :
    s.insert t = s :=
  if_pos ((hs.contains_iff t).mpr ht)

theorem insert_of_notMem
    {s : TupleSet digest} (hs : s.WellFormed) {t : Tuple} (ht : t ∉ s.toList) :
    s.insert t = ⟨s.tuples.push t,
      s.index.insert (t.hash digest) (s.places (t.hash digest) ++ [s.size])⟩ :=
  if_neg fun hheld => ht ((hs.contains_iff t).mp hheld)

theorem toList_insert
    {s : TupleSet digest} (hs : s.WellFormed) (t : Tuple) :
    (s.insert t).toList = if t ∈ s.toList then s.toList else s.toList ++ [t] := by
  split
  · rename_i ht
    rw [insert_of_mem hs ht]
  · rename_i ht
    rw [insert_of_notMem hs ht]
    simp [toList]

theorem wellFormed_insert
    {s : TupleSet digest} (hs : s.WellFormed) (t : Tuple) : (s.insert t).WellFormed := by
  by_cases ht : t ∈ s.toList
  · rwa [insert_of_mem hs ht]
  · constructor
    · rw [toList_insert hs, if_neg ht]
      exact hs.nodup.append (List.nodup_singleton t) (by simpa using ht)
    · intro h
      -- The old places keep their tuples, and the new place is the last.
      have hold : (List.range s.size).filter
            (fun i => ((s.tuples.push t)[i]?).map (·.hash digest) == some h) = s.places h := by
        rw [hs.places_eq]
        apply List.filter_congr
        intro i hi
        rw [Array.getElem?_push_lt (List.mem_range.mp hi),
          Array.getElem?_eq_getElem (List.mem_range.mp hi)]
      rw [insert_of_notMem hs ht]
      simp only [size, Array.size_push, List.range_succ, List.filter_append, places,
        Std.TreeMap.getD_insert] at hold ⊢
      rw [hold]
      by_cases hh : t.hash digest = h
      · simp [hh]
      · simp [hh]

theorem wellFormed_insertAll
    {s : TupleSet digest} (hs : s.WellFormed) (ts : List Tuple) : (s.insertAll ts).WellFormed := by
  induction ts generalizing s with
  | nil => exact hs
  | cons t ts ih => exact ih (wellFormed_insert hs t)

theorem wellFormed_ofList (ts : List Tuple) : (ofList ts : TupleSet digest).WellFormed :=
  wellFormed_insertAll wellFormed_empty ts

/-- Inserting a list appends its new tuples, each once, in the order of the list. -/
theorem toList_insertAll
    {s : TupleSet digest} (hs : s.WellFormed) (ts : List Tuple) :
    (s.insertAll ts).toList = s.toList ++ (ts.filter (· ∉ s.toList)).eraseDups := by
  induction ts generalizing s with
  | nil => simp [insertAll]
  | cons t ts ih =>
      change ((s.insert t).insertAll ts).toList = _
      rw [ih (wellFormed_insert hs t), toList_insert hs]
      by_cases ht : t ∈ s.toList
      · simp [ht]
      · rw [if_neg ht, List.filter_cons_of_pos (by simpa using ht), List.eraseDups_cons,
          List.filter_filter, List.append_assoc, List.singleton_append]
        congr 3
        apply List.filter_congr
        intro u _
        by_cases hu : u = t <;> simp [hu]

theorem mem_insertAll
    {s : TupleSet digest} (hs : s.WellFormed) (ts : List Tuple) (t : Tuple) :
    t ∈ (s.insertAll ts).toList ↔ t ∈ s.toList ∨ t ∈ ts := by
  rw [toList_insertAll hs, List.mem_append, List.mem_eraseDups, List.mem_filter]
  by_cases ht : t ∈ s.toList <;> simp [ht]

theorem toList_ofList (ts : List Tuple) :
    (ofList ts : TupleSet digest).toList = ts.eraseDups := by
  rw [ofList, toList_insertAll wellFormed_empty]
  simp [empty, toList]

theorem toList_ofList_of_nodup {ts : List Tuple} (hts : ts.Nodup) :
    (ofList ts : TupleSet digest).toList = ts := by
  rw [toList_ofList, FirstOccurrences.eraseDups_eq_self hts]

theorem mem_ofList (ts : List Tuple) (t : Tuple) :
    t ∈ (ofList ts : TupleSet digest).toList ↔ t ∈ ts := by
  rw [toList_ofList, List.mem_eraseDups]

end LeastModel.TupleSet
