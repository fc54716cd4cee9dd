import Mathlib.Order.Defs.LinearOrder
import Mathlib.Order.Basic
import Mathlib.Data.BitVec
import Mathlib.Tactic.Common

/-!
# Finite maps with ordered keys

A finite map kept as an association list sorted by key. The order of the entries is part of the
value, so iterating over a map is iterating over `entries`, and two maps with the same lookups are
equal (`ext_find?`).
-/

/-- A finite map, its entries strictly ascending by key. -/
@[ext]
structure SortedMap (κ α : Type) [LinearOrder κ] where
  entries : List (κ × α)
  sorted : entries.Pairwise fun x y => x.1 < y.1

namespace SortedMap

variable {κ α : Type} [LinearOrder κ]

/-- The value the first entry of `key` holds. -/
def lookup (key : κ) : List (κ × α) → Option α
  | [] => none
  | entry :: rest => if entry.1 = key then some entry.2 else lookup key rest

/-- Put `value` at `key`, keeping the keys ascending. -/
def place (key : κ) (value : α) : List (κ × α) → List (κ × α)
  | [] => [(key, value)]
  | entry :: rest =>
      if key < entry.1 then (key, value) :: entry :: rest
      else if key = entry.1 then (key, value) :: rest
      else entry :: place key value rest

theorem mem_place {key : κ} {value : α} {entry : κ × α} {entries : List (κ × α)}
    (hmem : entry ∈ place key value entries) : entry = (key, value) ∨ entry ∈ entries := by
  induction entries with
  | nil => exact Or.inl (List.mem_singleton.mp hmem)
  | cons head rest ih =>
      rw [place] at hmem
      split at hmem
      · exact (List.mem_cons.mp hmem).imp_right id
      · split at hmem
        · exact (List.mem_cons.mp hmem).imp_right (List.mem_cons_of_mem _)
        · rcases List.mem_cons.mp hmem with hhead | hrest
          · exact Or.inr (hhead ▸ List.mem_cons_self)
          · exact (ih hrest).imp_right (List.mem_cons_of_mem _)

theorem sorted_place (key : κ) (value : α) {entries : List (κ × α)}
    (hsorted : entries.Pairwise fun x y => x.1 < y.1) :
    (place key value entries).Pairwise fun x y => x.1 < y.1 := by
  induction entries with
  | nil => exact List.pairwise_singleton _ _
  | cons head rest ih =>
      obtain ⟨hhead, hrest⟩ := List.pairwise_cons.mp hsorted
      rw [place]
      split
      · rename_i hlt
        refine List.pairwise_cons.mpr ⟨fun entry hmem => ?_, hsorted⟩
        rcases List.mem_cons.mp hmem with rfl | hmem
        · exact hlt
        · exact hlt.trans (hhead entry hmem)
      · split
        · rename_i heq
          exact List.pairwise_cons.mpr ⟨fun entry hmem => heq ▸ hhead entry hmem, hrest⟩
        · rename_i hnlt hne
          refine List.pairwise_cons.mpr ⟨fun entry hmem => ?_, ih hrest⟩
          rcases mem_place hmem with rfl | hmem
          · exact lt_of_le_of_ne (not_lt.mp hnlt) (Ne.symm hne)
          · exact hhead entry hmem

theorem mem_of_lookup {key : κ} {value : α} {entries : List (κ × α)}
    (hlookup : lookup key entries = some value) : (key, value) ∈ entries := by
  induction entries with
  | nil => cases hlookup
  | cons head rest ih =>
      rw [lookup] at hlookup
      split at hlookup
      · rename_i heq
        obtain rfl := Option.some.inj hlookup
        exact heq ▸ List.mem_cons_self
      · exact List.mem_cons_of_mem _ (ih hlookup)

theorem lookup_of_mem {key : κ} {value : α} {entries : List (κ × α)}
    (hsorted : entries.Pairwise fun x y => x.1 < y.1) (hmem : (key, value) ∈ entries) :
    lookup key entries = some value := by
  induction entries with
  | nil => cases hmem
  | cons head rest ih =>
      obtain ⟨hhead, hrest⟩ := List.pairwise_cons.mp hsorted
      rcases List.mem_cons.mp hmem with rfl | hmem
      · rw [lookup, if_pos rfl]
      · rw [lookup, if_neg (ne_of_lt (hhead _ hmem)), ih hrest hmem]

theorem lookup_place (key : κ) (value : α) (key' : κ) {entries : List (κ × α)}
    (hsorted : entries.Pairwise fun x y => x.1 < y.1) :
    lookup key' (place key value entries)
      = if key' = key then some value else lookup key' entries := by
  induction entries with
  | nil => simp [place, lookup, eq_comm]
  | cons head rest ih =>
      obtain ⟨hhead, hrest⟩ := List.pairwise_cons.mp hsorted
      rw [place]
      split
      · by_cases heq : key' = key
        · simp [lookup, heq]
        · simp [lookup, heq, Ne.symm heq]
      · split
        · rename_i heq
          by_cases heq' : key' = key
          · simp [lookup, heq']
          · simp [lookup, heq', Ne.symm heq', ← heq]
        · rename_i hne
          rw [lookup, ih hrest]
          by_cases heq : head.1 = key'
          · simp [lookup, heq, show key' ≠ key from fun h => hne (h ▸ heq.symm)]
          · simp [lookup, heq]

/-! ### The map operations -/

def empty : SortedMap κ α := ⟨[], List.Pairwise.nil⟩

def find? (map : SortedMap κ α) (key : κ) : Option α := lookup key map.entries

def contains (map : SortedMap κ α) (key : κ) : Bool := (map.find? key).isSome

/-- Assign `value` to `key`, whether or not it was there. -/
def insert (map : SortedMap κ α) (key : κ) (value : α) : SortedMap κ α :=
  ⟨place key value map.entries, sorted_place key value map.sorted⟩

/-- Assign `value` to `key` only when `key` is not there yet. -/
def emplace (map : SortedMap κ α) (key : κ) (value : α) : SortedMap κ α :=
  if map.contains key then map else map.insert key value

def erase (map : SortedMap κ α) (key : κ) : SortedMap κ α :=
  ⟨map.entries.filter fun entry => entry.1 ≠ key, map.sorted.filter _⟩

/-- Update the value at `key`, if there is one. -/
def modify (map : SortedMap κ α) (key : κ) (change : α → α) : SortedMap κ α :=
  match map.find? key with
  | some value => map.insert key (change value)
  | none => map

@[simp]
theorem find?_empty (key : κ) : (empty : SortedMap κ α).find? key = none := rfl

theorem contains_empty {key : κ} : (empty : SortedMap κ α).contains key = false := rfl

theorem mem_entries_iff {map : SortedMap κ α} {key : κ} {value : α} :
    (key, value) ∈ map.entries ↔ map.find? key = some value :=
  ⟨lookup_of_mem map.sorted, mem_of_lookup⟩

theorem find?_insert (map : SortedMap κ α) (key : κ) (value : α) (key' : κ) :
    (map.insert key value).find? key' = if key' = key then some value else map.find? key' :=
  lookup_place key value key' map.sorted

@[simp]
theorem find?_insert_self (map : SortedMap κ α) (key : κ) (value : α) :
    (map.insert key value).find? key = some value := by
  rw [find?_insert, if_pos rfl]

theorem find?_insert_of_ne (map : SortedMap κ α) {key key' : κ} (value : α) (hne : key' ≠ key) :
    (map.insert key value).find? key' = map.find? key' := by
  rw [find?_insert, if_neg hne]

theorem contains_eq_true_iff {map : SortedMap κ α} {key : κ} :
    map.contains key = true ↔ ∃ value, map.find? key = some value :=
  Option.isSome_iff_exists

theorem contains_eq_false_iff {map : SortedMap κ α} {key : κ} :
    map.contains key = false ↔ map.find? key = none := by
  simp [contains]

theorem find?_emplace (map : SortedMap κ α) (key : κ) (value : α) (key' : κ) :
    (map.emplace key value).find? key'
      = if key' = key ∧ map.find? key = none then some value else map.find? key' := by
  unfold emplace contains
  cases hfind : map.find? key with
  | none => simp [find?_insert]
  | some old => simp

theorem find?_erase (map : SortedMap κ α) (key key' : κ) :
    (map.erase key).find? key' = if key' = key then none else map.find? key' := by
  unfold find? erase
  dsimp only
  induction map.entries with
  | nil => simp [lookup]
  | cons head rest ih =>
      by_cases hhead : head.1 = key
      · rw [List.filter_cons_of_neg (by simpa using hhead), ih, lookup]
        by_cases heq : key' = key
        · simp [heq]
        · simp [heq, show head.1 ≠ key' from fun h => heq (h.symm.trans hhead)]
      · rw [List.filter_cons_of_pos (by simpa using hhead), lookup, ih, lookup]
        by_cases heq : key' = key
        · simp [heq, hhead]
        · simp [heq]

theorem find?_modify (map : SortedMap κ α) (key : κ) (change : α → α) (key' : κ) :
    (map.modify key change).find? key'
      = if key' = key then (map.find? key).map change else map.find? key' := by
  unfold modify
  cases hfind : map.find? key with
  | none =>
      by_cases heq : key' = key
      · simp [heq, hfind]
      · simp [heq]
  | some value => simp [find?_insert]

theorem find?_modify_self (map : SortedMap κ α) (key : κ) (change : α → α) :
    (map.modify key change).find? key = (map.find? key).map change := by
  rw [find?_modify, if_pos rfl]

theorem find?_modify_of_ne (map : SortedMap κ α) {key key' : κ} (change : α → α)
    (hne : key' ≠ key) : (map.modify key change).find? key' = map.find? key' := by
  rw [find?_modify, if_neg hne]

theorem nodup_entries (map : SortedMap κ α) : map.entries.Nodup :=
  map.sorted.imp fun {_ _} hlt => ne_of_apply_ne Prod.fst hlt.ne

theorem nodup_keys (map : SortedMap κ α) : (map.entries.map Prod.fst).Nodup :=
  List.pairwise_map.mpr (map.sorted.imp fun {_ _} hlt => hlt.ne)

theorem entries_subset_of_find? {left right : SortedMap κ α}
    (hfind : ∀ key, left.find? key = right.find? key) :
    ∀ entry ∈ left.entries, entry ∈ right.entries := by
  intro entry hmem
  exact mem_entries_iff.mpr ((hfind entry.1).symm.trans (mem_entries_iff.mp hmem))

/-- Two maps with the same lookups have the same entries in the same order. -/
theorem ext_find? {left right : SortedMap κ α} (hfind : ∀ key, left.find? key = right.find? key) :
    left = right := by
  apply SortedMap.ext
  have hantisymm : ∀ x y : κ × α, x ∈ left.entries → y ∈ right.entries → x.1 < y.1 → y.1 < x.1 →
      x = y := fun x y _ _ hlt hgt => absurd (hlt.trans hgt) (lt_irrefl _)
  refine List.Perm.eq_of_pairwise hantisymm left.sorted right.sorted ?_
  · exact (List.perm_ext_iff_of_nodup left.nodup_entries right.nodup_entries).mpr fun entry =>
      ⟨entries_subset_of_find? hfind entry,
        entries_subset_of_find? (fun key => (hfind key).symm) entry⟩

theorem modify_of_find? {map : SortedMap κ α} {key : κ} {value : α} (change : α → α)
    (hfind : map.find? key = some value) :
    map.modify key change = map.insert key (change value) := by
  simp only [modify, hfind]

theorem emplace_of_find?_none {map : SortedMap κ α} {key : κ} (value : α)
    (hfind : map.find? key = none) : map.emplace key value = map.insert key value := by
  simp [emplace, contains, hfind]

/-- `emplace` changes nothing exactly where the key is there already. -/
theorem emplace_eq_self_iff {map : SortedMap κ α} {key : κ} {value : α} :
    map.emplace key value = map ↔ map.contains key = true := by
  cases hfind : map.find? key with
  | none =>
      have hcontains : map.contains key = false := contains_eq_false_iff.mpr hfind
      refine ⟨fun hsame => ?_, fun h => by rw [hcontains] at h; cases h⟩
      have hnew := find?_emplace map key value key
      rw [hsame, hfind, if_pos ⟨rfl, rfl⟩] at hnew
      cases hnew
  | some old =>
      refine ⟨fun _ => contains_eq_true_iff.mpr ⟨old, hfind⟩, fun _ => ext_find? fun key' => ?_⟩
      rw [find?_emplace, if_neg (by simp [hfind])]

theorem insert_insert_self (map : SortedMap κ α) (key : κ) (value value' : α) :
    (map.insert key value).insert key value' = map.insert key value' := by
  apply ext_find?
  intro key'
  simp only [find?_insert]
  split <;> rfl

theorem insert_modify_self (map : SortedMap κ α) (key : κ) (change : α → α) (value : α) :
    (map.modify key change).insert key value = map.insert key value := by
  apply ext_find?
  intro key'
  simp only [find?_insert, find?_modify]
  split <;> rfl

theorem erase_modify_self (map : SortedMap κ α) (key : κ) (change : α → α) :
    (map.modify key change).erase key = map.erase key := by
  apply ext_find?
  intro key'
  simp only [find?_erase, find?_modify]
  split <;> rfl

theorem contains_insert (map : SortedMap κ α) (key : κ) (value : α) (key' : κ) :
    (map.insert key value).contains key' = (decide (key' = key) || map.contains key') := by
  by_cases heq : key' = key <;> simp [contains, find?_insert, heq]

theorem entries_eq_singleton {map : SortedMap κ α} {key : κ} {value : α}
    (hfind : map.find? key = some value) (honly : ∀ key', map.contains key' = true → key' = key) :
    map.entries = [(key, value)] := by
  have hmap : map = (empty : SortedMap κ α).insert key value := by
    apply ext_find?
    intro key'
    rw [find?_insert]
    split
    · rename_i heq
      rw [heq, hfind]
    · rename_i hne
      exact contains_eq_false_iff.mp (Bool.eq_false_iff.mpr fun hkey => hne (honly key' hkey))
  rw [hmap]
  rfl

theorem eq_insert_of_keys {map : SortedMap κ α} {key : κ} {value : α}
    (hkeys : map.entries.map Prod.fst = [key]) (hfind : map.find? key = some value) :
    map = (empty : SortedMap κ α).insert key value := by
  apply SortedMap.ext
  refine entries_eq_singleton hfind fun key' hkey => ?_
  obtain ⟨other, hother⟩ := contains_eq_true_iff.mp hkey
  have hmem := List.mem_map_of_mem (f := Prod.fst) (mem_entries_iff.mpr hother)
  rw [hkeys] at hmem
  exact List.mem_singleton.mp hmem

/-- Assigning the value a key already has changes nothing. -/
theorem insert_find?_self {map : SortedMap κ α} {key : κ} {value : α}
    (hfind : map.find? key = some value) : map.insert key value = map := by
  apply ext_find?
  intro key'
  rw [find?_insert]
  split
  · rename_i heq
    rw [heq, hfind]
  · rfl

end SortedMap
