import Noda.Lib.Assoc
import Noda.Lib.Json

/-!
# Resolved configs

A resolved config as the checks before the start and the start itself read it: the root file and the sections with one
map a file.
-/

namespace Noda.Config

/-- `map[string]any`. -/
abbrev AnyMap := GoMap Json

/-- A section: the path of each file with its content. -/
abbrev Section := GoMap AnyMap

structure ResolvedConfig where
  root : AnyMap
  routes : Section
  workflows : Section
  connections : Section

/-- `m[key].(string)`. -/
def strField (m : AnyMap) (key : String) : Option String := (m.lookup key).bind Json.asStr

/-- `m[key].([]any)`. -/
def arrField (m : AnyMap) (key : String) : Option (List Json) := (m.lookup key).bind Json.asArr

/-- `m[key].(map[string]any)`. -/
def mapField (m : AnyMap) (key : String) : Option AnyMap := (m.lookup key).bind Json.asMap

def strings (items : List Json) : List String := items.filterMap Json.asStr

def stringsField (m : AnyMap) (key : String) : List String := ((arrField m key).map strings).getD []

/-- The entries of a map for which `f` has a value. -/
def filterMapValues {α β : Type} (f : α → Option β) (m : GoMap α) : GoMap β :=
  GoMap.ofPairs (m.toPairs.filterMap fun e => (f e.2).map (e.1, ·))

theorem lookup_filterMapValues {α β : Type} (f : α → Option β) (m : GoMap α) (k : String) :
    (filterMapValues f m).lookup k = (m.lookup k).bind f := by
  have hnodup : ((m.toPairs.filterMap fun e => (f e.2).map (e.1, ·)).map Prod.fst).Nodup := by
    have hsub : ((m.toPairs.filterMap fun e => (f e.2).map (e.1, ·)).map Prod.fst).Sublist
        (m.toPairs.map Prod.fst) := by
      induction m.toPairs with
      | nil => exact .slnil
      | cons e es ih =>
        cases hf : f e.2 with
        | none => simpa [hf] using ih.cons e.1
        | some v => simpa [hf] using ih
    rw [← AList.keys_eq_map_toPairs] at hsub
    exact hsub.nodup m.nodupKeys
  ext v
  rw [filterMapValues, GoMap.lookup_ofPairs, Assoc.lookup_eq_some hnodup, Option.bind_eq_some_iff, List.mem_filterMap]
  constructor
  · rintro ⟨⟨k', w⟩, hmem, hmap⟩
    obtain ⟨v', hv', heq⟩ := Option.map_eq_some_iff.1 hmap
    obtain ⟨rfl, rfl⟩ := Prod.mk.inj heq
    exact ⟨w, AList.mem_toPairs.1 hmem, hv'⟩
  · rintro ⟨w, hw, hv⟩
    exact ⟨(k, w), AList.mem_toPairs.2 hw, by rw [hv]; rfl⟩

/-- The names of the files of a section, in order. -/
def sortedSectionKeys (m : Section) : List String := sortStrings m.keys

/-- A loop over the files of a section. -/
theorem forall_sortedSectionKeys {m : Section} {P : String → AnyMap → Prop} :
    (∀ id ∈ sortedSectionKeys m, P id ((m.lookup id).getD ∅)) ↔ ∀ id v, m.lookup id = some v → P id v := by
  constructor
  · intro h id v hv
    have hid := h id (mem_sortStrings.2 (AList.mem_of_lookup hv))
    rwa [hv] at hid
  · intro h id hid
    obtain ⟨v, hv⟩ := AList.exists_lookup_of_mem (m := m) (mem_sortStrings.1 hid)
    rw [hv]
    exact h id v hv

/-- `strings.Cut` at a separator of one character. -/
def cut (s : String) (sep : Char) : Option (String × String) :=
  match s.toList.dropWhile (· ≠ sep) with
  | [] => none
  | _ :: after => some (String.ofList (s.toList.takeWhile (· ≠ sep)), String.ofList after)

end Noda.Config
