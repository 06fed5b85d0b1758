import MessageCatalog.Proofs.Catalog.EditDistance
import Mathlib.Data.List.FinRange
import Mathlib.Data.List.Nodup

namespace MessageCatalog.Suggestion

noncomputable def distance (key s : String) : Nat :=
  levenshtein key.toList s.toList

def IsNear (key s : String) : Prop :=
  1 ≤ distance key s ∧ distance key s ≤ if key.utf8ByteSize ≤ 3 then 1 else 2

variable {key : String} {candidates : List String}

def Before (key : String) (candidates : List String) (i j : Fin candidates.length) : Prop :=
  distance key (candidates.get i) < distance key (candidates.get j) ∨
    distance key (candidates.get i) = distance key (candidates.get j) ∧ i < j

/-- The places are at most three, of near candidates, and in order. A near candidate at another place comes
after three others. -/
structure IsTopThree (key : String) (candidates : List String) (places : List (Fin candidates.length)) :
    Prop where
  most : places.length ≤ 3
  near : ∀ i ∈ places, IsNear key (candidates.get i)
  ordered : places.Pairwise (Before key candidates)
  others : ∀ j, IsNear key (candidates.get j) → j ∉ places →
    places.length = 3 ∧ ∀ i ∈ places, Before key candidates i j

theorem Before.asymm {i j : Fin candidates.length} (h : Before key candidates i j) :
    ¬Before key candidates j i := by
  simp only [Before] at h ⊢
  omega

namespace IsTopThree

variable {places places' : List (Fin candidates.length)}

theorem nodup (h : IsTopThree key candidates places) : places.Nodup := by
  refine h.ordered.imp fun hb => ?_
  rintro rfl
  exact hb.asymm hb

theorem subset (h : IsTopThree key candidates places) (h' : IsTopThree key candidates places') :
    places ⊆ places' := by
  intro i hi
  by_contra hnot
  obtain ⟨hlength, hbefore⟩ := h'.others i (h.near i hi) hnot
  -- the others come before this place, so none of them is left out, and there are four
  have hsub : i :: places' ⊆ places := by
    refine List.cons_subset.mpr ⟨hi, fun j hj => ?_⟩
    by_contra hj'
    exact (hbefore j hj).asymm ((h.others j (h'.near j hj) hj').2 i hi)
  have hfour := (List.Nodup.subperm (List.nodup_cons.mpr ⟨hnot, h'.nodup⟩) hsub).length_le
  have hmost := h.most
  rw [List.length_cons, hlength] at hfour
  omega

theorem unique (h : IsTopThree key candidates places) (h' : IsTopThree key candidates places') :
    places = places' := by
  have hperm : places.Perm places' := (List.perm_ext_iff_of_nodup h.nodup h'.nodup).mpr fun i =>
    ⟨fun hi => h.subset h' hi, fun hi => h'.subset h hi⟩
  exact hperm.eq_of_pairwise (fun i j _ _ hij hji => absurd hji hij.asymm) h.ordered h'.ordered

end IsTopThree

def placesAt (key : String) (candidates : List String) (n : Nat) : List (Fin candidates.length) :=
  (List.finRange candidates.length).filter fun i => editDistance key.toList (candidates.get i).toList = n

theorem mem_placesAt {n : Nat} {i : Fin candidates.length} : i ∈ placesAt key candidates n ↔
    distance key (candidates.get i) = n := by
  simp [placesAt, distance, editDistance_eq_levenshtein]

theorem atDistance_eq_map (key : String) (candidates : List String) (n : Nat) :
    atDistance key candidates n = (placesAt key candidates n).map candidates.get := by
  rw [atDistance, placesAt]
  conv => lhs; rw [← List.map_get_finRange candidates]
  rw [List.filter_map]
  rfl

def places (key : String) (candidates : List String) : List (Fin candidates.length) :=
  (List.range (mostEdits key)).flatMap fun n => placesAt key candidates (n + 1)

theorem forKey_eq_map (key : String) (candidates : List String) :
    forKey key candidates = ((places key candidates).take 3).map candidates.get := by
  rw [forKey, places, List.map_take, List.map_flatMap]
  simp only [atDistance_eq_map]

theorem mem_places {i : Fin candidates.length} :
    i ∈ places key candidates ↔ IsNear key (candidates.get i) := by
  simp only [places, List.mem_flatMap, List.mem_range, mem_placesAt, IsNear, mostEdits]
  constructor
  · rintro ⟨n, hn, hi⟩
    omega
  · intro h
    exact ⟨distance key (candidates.get i) - 1, by omega, by omega⟩

theorem ordered_places (key : String) (candidates : List String) :
    (places key candidates).Pairwise (Before key candidates) := by
  refine List.pairwise_flatMap.mpr ⟨fun n _ => ?_, ?_⟩
  · have hplaces : (placesAt key candidates (n + 1)).Pairwise (· < ·) :=
      (List.pairwise_lt_finRange _).filter _
    refine hplaces.imp_of_mem fun hi hj hij => .inr ⟨?_, hij⟩
    exact (mem_placesAt.mp hi).trans (mem_placesAt.mp hj).symm
  · refine List.pairwise_lt_range.imp fun hmn i hi j hj => .inl ?_
    have hi' := mem_placesAt.mp hi
    have hj' := mem_placesAt.mp hj
    omega

theorem isTopThree_take (key : String) (candidates : List String) :
    IsTopThree key candidates ((places key candidates).take 3) where
  most := List.length_take_le 3 _
  near i hi := mem_places.mp (List.mem_of_mem_take hi)
  ordered := (ordered_places key candidates).take
  others j hj hnot := by
    have hmem := mem_places.mpr hj
    rw [← List.take_append_drop 3 (places key candidates), List.mem_append] at hmem
    have hdrop := hmem.resolve_left hnot
    have hordered := ordered_places key candidates
    rw [← List.take_append_drop 3 (places key candidates), List.pairwise_append] at hordered
    refine ⟨?_, fun i hi => hordered.2.2 i hi j hdrop⟩
    have hlength := List.length_pos_of_mem hdrop
    rw [List.length_drop] at hlength
    rw [List.length_take]
    omega

theorem forKey_topThree (key : String) (candidates : List String) :
    (∃ places, (∀ others, IsTopThree key candidates others ↔ others = places) ∧
      forKey key candidates = places.map candidates.get) ∧
    key ∉ forKey key candidates := by
  have htop := isTopThree_take key candidates
  have hmap := forKey_eq_map key candidates
  refine ⟨⟨_, fun others => ⟨fun h => h.unique htop, fun h => h ▸ htop⟩, hmap⟩, fun hkey => ?_⟩
  rw [hmap] at hkey
  obtain ⟨i, hi, hget⟩ := List.mem_map.mp hkey
  have hnear := (htop.near i hi).1
  rw [hget, distance, levenshtein_eq_zero_iff.mpr rfl] at hnear
  omega

end MessageCatalog.Suggestion
