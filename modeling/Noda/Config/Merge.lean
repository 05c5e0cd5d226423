import Noda.Lib.JsonMap

/-!
# Overlays

`MergeOverlay` lays the config of an environment over the base config: objects are merged, `null` removes a key, and
everything else replaces what is there.  An object of the overlay that meets no object in the base is copied as it is,
with the `null`s in it.

`mergeLaw_iff`: the overlay has the effect that its documentation describes exactly if the base has an object wherever
the overlay has an object with a `null`.
-/

namespace Noda.Config

open Json (Fields)

mutual

def deepCopy : Json → Json
  | .obj m => .obj (copyMap m)
  | .arr items => .arr (copyItems items)
  | v => v

def copyItems : List Json → List Json
  | [] => []
  | item :: items => deepCopy item :: copyItems items

def copyMap : Fields → Fields
  | [] => []
  | (k, v) :: m => (k, deepCopy v) :: copyMap m

end

mutual

/-- The loop of `MergeOverlay` over the overlay, with the `result` so far. -/
def mergeInto (result : Fields) : Fields → Fields
  | [] => result
  | (key, overlayVal) :: overlay => mergeInto (mergeKey result key overlayVal) overlay

/-- One pass of the loop. -/
def mergeKey (result : Fields) (key : String) : Json → Fields
  | .null => Assoc.remove key result
  | .obj overlayMap =>
    match result.lookup key with
    | some (.obj baseMap) => Assoc.put key (.obj (mergeInto (copyMap baseMap) overlayMap)) result
    | _ => Assoc.put key (deepCopy (.obj overlayMap)) result
  | overlayVal => Assoc.put key (deepCopy overlayVal) result

end

/-- `MergeOverlay` on the fields of the two maps; no overlay is one without fields. -/
def mergeFields (base overlay : Fields) : Fields := mergeInto (copyMap base) overlay

/-! ### Copies -/

mutual

@[simp] theorem deepCopy_eq : ∀ v, deepCopy v = v
  | .null | .bool _ | .num _ | .str _ => rfl
  | .arr items => by rw [deepCopy, copyItems_eq items]
  | .obj m => by rw [deepCopy, copyMap_eq m]

theorem copyItems_eq : ∀ items, copyItems items = items
  | [] => rfl
  | item :: items => by rw [copyItems, deepCopy_eq item, copyItems_eq items]

@[simp] theorem copyMap_eq : ∀ m, copyMap m = m
  | [] => rfl
  | (k, v) :: m => by rw [copyMap, deepCopy_eq v, copyMap_eq m]

end

private theorem mergeFields_eq (base overlay : Fields) : mergeFields base overlay = mergeInto base overlay := by
  rw [mergeFields, copyMap_eq]

/-! ### The value of a key -/

/-- The value of a key after the merge, from its value in the base and in the overlay. -/
def mergedValue : Option Json → Json → Option Json
  | _, .null => none
  | some (.obj baseMap), .obj overlayMap => some (.obj (mergeInto baseMap overlayMap))
  | _, overlayVal => some overlayVal

private theorem lookup_mergeKey_self (result : Fields) (key : String) (overlayVal : Json) :
    (mergeKey result key overlayVal).lookup key = mergedValue (result.lookup key) overlayVal := by
  cases overlayVal with
  | null => exact Assoc.lookup_remove_self key result
  | obj overlayMap =>
    rw [mergeKey]
    cases hlookup : result.lookup key with
    | none => simp [mergedValue, Assoc.lookup_put_self]
    | some v => cases v <;> simp [mergedValue, Assoc.lookup_put_self]
  | _ => simp [mergeKey, mergedValue, Assoc.lookup_put_self]

private theorem lookup_mergeKey_of_ne {key key' : String} (h : key' ≠ key) (result : Fields) (overlayVal : Json) :
    (mergeKey result key overlayVal).lookup key' = result.lookup key' := by
  cases overlayVal with
  | null => exact Assoc.lookup_remove_of_ne h result
  | obj overlayMap =>
    rw [mergeKey]
    split <;> exact Assoc.lookup_put_of_ne h _ result
  | _ => exact Assoc.lookup_put_of_ne h _ result

private theorem lookup_mergeInto {overlay : Fields} (hnodup : (overlay.map Prod.fst).Nodup) (result : Fields)
    (key : String) :
    (mergeInto result overlay).lookup key =
      match overlay.lookup key with
      | none => result.lookup key
      | some overlayVal => mergedValue (result.lookup key) overlayVal := by
  induction overlay generalizing result with
  | nil => rw [mergeInto]; rfl
  | cons e overlay ih =>
    obtain ⟨k, v⟩ := e
    rw [List.map_cons, List.nodup_cons] at hnodup
    rw [mergeInto, ih hnodup.2]
    by_cases hk : key = k
    · -- the key does not come again
      have hnone : overlay.lookup k = none := by
        rw [Assoc.lookup_eq_none]
        exact fun v' hmem => hnodup.1 (List.mem_map.2 ⟨(k, v'), hmem, rfl⟩)
      subst hk
      rw [hnone, List.lookup_cons_self]
      exact lookup_mergeKey_self result key v
    · rw [lookup_mergeKey_of_ne hk, List.lookup_cons, beq_false_of_ne hk]

/-! ### The invariant -/

private theorem distinct_put {result : Fields} {key : String} {v : Json} (h : (Json.obj result).distinct = true)
    (hv : v.distinct = true) : (Json.obj (Assoc.put key v result)).distinct = true := by
  rw [Json.distinct_obj] at h ⊢
  refine ⟨Assoc.nodup_put h.1, fun e he => ?_⟩
  rcases Assoc.mem_put he with rfl | he
  · exact hv
  · exact h.2 e he

private theorem distinct_remove {result : Fields} (key : String) (h : (Json.obj result).distinct = true) :
    (Json.obj (Assoc.remove key result)).distinct = true := by
  rw [Json.distinct_obj] at h ⊢
  exact ⟨h.1.sublist (List.filter_sublist.map Prod.fst), fun e he => h.2 e (List.mem_of_mem_filter he)⟩

mutual

theorem distinct_mergeInto : ∀ {overlay result : Fields}, (Json.obj result).distinct = true →
    (∀ e ∈ overlay, e.2.distinct = true) → (Json.obj (mergeInto result overlay)).distinct = true
  | [], _, hresult, _ => hresult
  | (key, overlayVal) :: overlay, result, hresult, hoverlay => by
    obtain ⟨hval, hrest⟩ := List.forall_mem_cons.1 hoverlay
    rw [mergeInto]
    exact distinct_mergeInto (distinct_mergeKey hresult hval) hrest

theorem distinct_mergeKey : ∀ {overlayVal : Json} {result : Fields} {key : String}, (Json.obj result).distinct = true →
    overlayVal.distinct = true → (Json.obj (mergeKey result key overlayVal)).distinct = true
  | .null, _, key, hresult, _ => distinct_remove key hresult
  | .obj overlayMap, result, key, hresult, hval => by
    rw [mergeKey]
    split
    · rename_i baseMap hbase
      have hbase : (Json.obj baseMap).distinct = true :=
        (Json.distinct_obj.1 hresult).2 (key, .obj baseMap) (Assoc.mem_of_lookup hbase)
      rw [copyMap_eq]
      exact distinct_put hresult (distinct_mergeInto hbase (Json.distinct_obj.1 hval).2)
    · rw [deepCopy_eq]
      exact distinct_put hresult hval
  | .bool _, _, _, hresult, hval | .num _, _, _, hresult, hval | .str _, _, _, hresult, hval => by
    rw [mergeKey, deepCopy_eq]
    · exact distinct_put hresult hval
    all_goals simp
  | .arr _, _, _, hresult, hval => by
    rw [mergeKey, deepCopy_eq]
    · exact distinct_put hresult hval
    all_goals simp

end

/-- `MergeOverlay`. -/
def mergeOverlay (base overlay : JsonMap) : JsonMap where
  fields := mergeFields base.fields overlay.fields
  distinct := by
    rw [mergeFields_eq]
    exact distinct_mergeInto base.distinct (Json.distinct_obj.1 overlay.distinct).2

/-! ### The value at a path -/

/-- A value that is not an object. -/
def IsLeaf (v : Json) : Prop := ∀ fields, v ≠ .obj fields

section

variable {overlay base : Fields} {key : String} {path : List String}

private theorem get_mergeInto_of_none (hnodup : (overlay.map Prod.fst).Nodup) (hnone : overlay.lookup key = none) :
    Json.get (key :: path) (.obj (mergeInto base overlay)) = Json.get (key :: path) (.obj base) := by
  rw [Json.get_cons_obj, lookup_mergeInto hnodup, hnone, Json.get_cons_obj]

/-- Two objects are merged. -/
private theorem get_mergeInto_obj (hnodup : (overlay.map Prod.fst).Nodup) {overlayMap baseMap : Fields}
    (hval : overlay.lookup key = some (.obj overlayMap)) (hbase : base.lookup key = some (.obj baseMap)) :
    Json.get (key :: path) (.obj (mergeInto base overlay)) = Json.get path (.obj (mergeInto baseMap overlayMap)) := by
  rw [Json.get_cons_obj, lookup_mergeInto hnodup, hval, hbase]
  rfl

private theorem mergedValue_of_not_both {baseVal : Option Json} {overlayVal : Json} (hnull : overlayVal ≠ .null)
    (h : IsLeaf overlayVal ∨ ∀ fields, baseVal ≠ some (.obj fields)) :
    mergedValue baseVal overlayVal = some overlayVal := by
  cases overlayVal with
  | null => exact absurd rfl hnull
  | obj overlayMap =>
    rcases h with h | h
    · exact absurd rfl (h overlayMap)
    · cases baseVal with
      | none => rfl
      | some v =>
        cases v with
        | obj fields => exact absurd rfl (h fields)
        | _ => rfl
  | _ => cases baseVal <;> rfl

/-- Everything else replaces what is there. -/
private theorem get_mergeInto_of_not_both (hnodup : (overlay.map Prod.fst).Nodup) {overlayVal : Json}
    (hval : overlay.lookup key = some overlayVal) (hnull : overlayVal ≠ .null)
    (h : IsLeaf overlayVal ∨ ∀ fields, base.lookup key ≠ some (.obj fields)) :
    Json.get (key :: path) (.obj (mergeInto base overlay)) = Json.get path overlayVal := by
  rw [Json.get_cons_obj, lookup_mergeInto hnodup, hval]
  show (mergedValue _ _).bind _ = _
  rw [mergedValue_of_not_both hnull h, Option.bind_some]

private theorem get_mergeInto_null (hnodup : (overlay.map Prod.fst).Nodup) (hval : overlay.lookup key = some .null) :
    Json.get (key :: path) (.obj (mergeInto base overlay)) = none := by
  rw [Json.get_cons_obj, lookup_mergeInto hnodup, hval]
  rfl

end

private theorem distinct_of_lookup {fields inner : Fields} {key : String} (h : (Json.obj fields).distinct = true)
    (hkey : fields.lookup key = some (.obj inner)) : (Json.obj inner).distinct = true :=
  (Json.distinct_obj.1 h).2 (key, .obj inner) (Assoc.mem_of_lookup hkey)

/-- Nothing but an object has a value at a longer path. -/
private theorem exists_obj_of_get {path : List String} {key : String} {v w : Json}
    (h : Json.get (path ++ [key]) v = some w) : ∃ fields, v = .obj fields := by
  cases path with
  | nil =>
    obtain ⟨fields, -, rfl, -⟩ := Json.get_cons_eq_some.1 h
    exact ⟨fields, rfl⟩
  | cons k path =>
    obtain ⟨fields, -, rfl, -⟩ := Json.get_cons_eq_some.1 h
    exact ⟨fields, rfl⟩

/-- A `null` of the overlay removes its key exactly if the base has an object that could hold the key. -/
private theorem get_null_iff {path : List String} {key : String} {overlay base : Fields}
    (hdistinct : (Json.obj overlay).distinct = true) (hnull : Json.get (path ++ [key]) (.obj overlay) = some .null) :
    Json.get (path ++ [key]) (.obj (mergeInto base overlay)) = none ↔
      ∃ fields, Json.get path (.obj base) = some (.obj fields) := by
  induction path generalizing overlay base with
  | nil =>
    have hnodup := (Json.distinct_obj.1 hdistinct).1
    obtain ⟨u, hval, hu⟩ := Json.get_obj_eq_some.1 hnull
    rw [Json.get_nil, Option.some.injEq] at hu
    subst hu
    exact ⟨fun _ => ⟨base, Json.get_nil _⟩, fun _ => get_mergeInto_null hnodup hval⟩
  | cons k path ih =>
    have hnodup := (Json.distinct_obj.1 hdistinct).1
    rw [List.cons_append] at hnull
    obtain ⟨u, hval, hu⟩ := Json.get_obj_eq_some.1 hnull
    obtain ⟨overlayMap, rfl⟩ := exists_obj_of_get hu
    by_cases hbase : ∃ baseMap, base.lookup k = some (.obj baseMap)
    · obtain ⟨baseMap, hbase⟩ := hbase
      rw [List.cons_append, get_mergeInto_obj hnodup hval hbase, Json.get_cons_obj, hbase]
      exact ih (distinct_of_lookup hdistinct hval) hu
    · push Not at hbase
      rw [List.cons_append, get_mergeInto_of_not_both hnodup hval (by simp) (.inr hbase), hu]
      refine ⟨fun h => absurd h (by simp), ?_⟩
      rintro ⟨fields, hfields⟩
      obtain ⟨w, hw, hfields⟩ := Json.get_obj_eq_some.1 hfields
      -- the value of the base is no object, and neither is anything at a path from it
      cases path with
      | nil =>
        rw [Json.get_nil, Option.some.injEq] at hfields
        exact absurd (hfields ▸ hw) (hbase fields)
      | cons k' path =>
        obtain ⟨fields', -, rfl, -⟩ := Json.get_cons_eq_some.1 hfields
        exact absurd hw (hbase fields')

private theorem get_kept {path : List String} {overlay base : Fields} {v : Json}
    (hdistinct : (Json.obj overlay).distinct = true)
    (hval : Json.get path (.obj overlay) = some v) (hnull : v ≠ .null) (hleaf : IsLeaf v) :
    Json.get path (.obj (mergeInto base overlay)) = some v := by
  induction path generalizing overlay base with
  | nil =>
    rw [Json.get_nil, Option.some.injEq] at hval
    exact absurd hval.symm (hleaf overlay)
  | cons k path ih =>
    have hnodup := (Json.distinct_obj.1 hdistinct).1
    obtain ⟨u, hk, hu⟩ := Json.get_obj_eq_some.1 hval
    by_cases hboth : ∃ overlayMap baseMap, u = .obj overlayMap ∧ base.lookup k = some (.obj baseMap)
    · obtain ⟨overlayMap, baseMap, rfl, hbase⟩ := hboth
      rw [get_mergeInto_obj hnodup hk hbase]
      exact ih (distinct_of_lookup hdistinct hk) hu
    · have hunull : u ≠ .null := by
        rintro rfl
        cases path with
        | nil => exact hnull (Option.some.inj hu).symm
        | cons k' path =>
          obtain ⟨fields, -, h, -⟩ := Json.get_cons_eq_some.1 hu
          cases h
      rw [get_mergeInto_of_not_both hnodup hk hunull ?_, hu]
      by_cases hleaf' : IsLeaf u
      · exact .inl hleaf'
      · simp only [IsLeaf, not_forall, not_not] at hleaf'
        obtain ⟨overlayMap, rfl⟩ := hleaf'
        exact .inr fun baseMap hbase => hboth ⟨overlayMap, baseMap, rfl, hbase⟩

private theorem get_untouched {path : List String} {overlay base : Fields}
    (hdistinct : (Json.obj overlay).distinct = true)
    (hleaves : Json.leaves path (.obj overlay) = true) :
    Json.get path (.obj (mergeInto base overlay)) = Json.get path (.obj base) := by
  induction path generalizing overlay base with
  | nil => cases hleaves
  | cons k path ih =>
    have hnodup := (Json.distinct_obj.1 hdistinct).1
    cases hk : overlay.lookup k with
    | none => exact get_mergeInto_of_none hnodup hk
    | some u =>
      have hu : Json.leaves path u = true := by
        rw [Json.leaves, hk] at hleaves
        exact hleaves
      -- the path goes on into an object of the overlay
      obtain ⟨k', path, rfl⟩ : ∃ k' path', path = k' :: path' := by
        cases path with
        | nil => cases u <;> cases hu
        | cons k' path => exact ⟨k', path, rfl⟩
      obtain ⟨overlayMap, rfl, -⟩ := Json.leaves_cons.1 hu
      by_cases hbase : ∃ baseMap, base.lookup k = some (.obj baseMap)
      · obtain ⟨baseMap, hbase⟩ := hbase
        rw [get_mergeInto_obj hnodup hk hbase, ih (distinct_of_lookup hdistinct hk) hu, Json.get_cons_obj k, hbase]
        rfl
      · push Not at hbase
        rw [get_mergeInto_of_not_both hnodup hk (by simp) (.inr hbase), Json.get_of_leaves hu]
        by_contra hsome
        obtain ⟨w, hw⟩ := Option.ne_none_iff_exists.1 (Ne.symm hsome)
        obtain ⟨w', hw', hget⟩ := Json.get_obj_eq_some.1 hw.symm
        obtain ⟨fields, -, rfl, -⟩ := Json.get_cons_eq_some.1 hget
        exact hbase fields hw'

/-! ### The law -/

/-- What the overlay promises: a `null` removes its key, every other value that is not an object is found where the
overlay has it, everything that the overlay does not reach stays, and to merge it once more changes nothing. -/
structure MergeLaw (base overlay : JsonMap) : Prop where
  removed : ∀ path, overlay.get path = some .null → (mergeOverlay base overlay).get path = none
  kept : ∀ path v, overlay.get path = some v → v ≠ .null → IsLeaf v → (mergeOverlay base overlay).get path = some v
  untouched : ∀ path, Json.leaves path (.obj overlay.fields) = true →
    (mergeOverlay base overlay).get path = base.get path
  idem : mergeOverlay (mergeOverlay base overlay) overlay = mergeOverlay base overlay

/-- The base has an object wherever the overlay has an object with a `null`. -/
def NullsMeetObjects (base overlay : Fields) : Prop :=
  ∀ path key, Json.get (path ++ [key]) (.obj overlay) = some .null →
    ∃ fields, Json.get path (.obj base) = some (.obj fields)

private theorem mergeInto_of_absorbed {result overlay : Fields} (h : ∀ e ∈ overlay, mergeKey result e.1 e.2 = result) :
    mergeInto result overlay = result := by
  induction overlay with
  | nil => rw [mergeInto]
  | cons e overlay ih =>
    obtain ⟨he, hrest⟩ := List.forall_mem_cons.1 h
    rw [mergeInto, he, ih hrest]

private theorem mergeKey_of_removed {result : Fields} {key : String} (h : result.lookup key = none) :
    mergeKey result key .null = result := by
  rw [mergeKey, Assoc.remove_of_lookup h]

private theorem mergeKey_of_kept {result : Fields} {key : String} {v : Json} (hnull : v ≠ .null) (hleaf : IsLeaf v)
    (h : result.lookup key = some v) : mergeKey result key v = result := by
  cases v with
  | null => exact absurd rfl hnull
  | obj fields => exact absurd rfl (hleaf fields)
  | _ =>
    rw [mergeKey, deepCopy_eq, Assoc.put_of_lookup h]
    all_goals simp

private theorem mergeKey_of_merged {result inner overlayMap : Fields} {key : String}
    (h : result.lookup key = some (.obj inner)) (hinner : mergeInto inner overlayMap = inner) :
    mergeKey result key (.obj overlayMap) = result := by
  rw [mergeKey, h]
  show Assoc.put _ _ _ = _
  rw [copyMap_eq, hinner, Assoc.put_of_lookup h]

/-- Fields without a `null` absorb themselves. -/
private theorem mergeInto_self (fields : Fields) :
    (Json.obj fields).distinct = true → (∀ path key, Json.get (path ++ [key]) (.obj fields) ≠ some .null) →
      mergeInto fields fields = fields := by
  induction fields using Json.fields_induction with
  | h fields ih =>
    intro hdistinct hnull
    refine mergeInto_of_absorbed fun e he => ?_
    obtain ⟨key, v⟩ := e
    have hlookup : fields.lookup key = some v := (Assoc.lookup_eq_some (Json.distinct_obj.1 hdistinct).1).2 he
    have hget (path : List String) : Json.get (key :: path) (.obj fields) = Json.get path v := by
      rw [Json.get_cons_obj, hlookup, Option.bind_some]
    cases v with
    | null => exact absurd (hget []) (hnull [] key)
    | obj inner =>
      refine mergeKey_of_merged hlookup (ih key inner he (distinct_of_lookup hdistinct hlookup) fun path k h => ?_)
      exact hnull (key :: path) k (by rw [List.cons_append, hget, h])
    | _ => exact mergeKey_of_kept (by simp) (by simp [IsLeaf]) hlookup

private theorem mergeInto_idem (overlay : Fields) :
    ∀ base, (Json.obj overlay).distinct = true → NullsMeetObjects base overlay →
      mergeInto (mergeInto base overlay) overlay = mergeInto base overlay := by
  induction overlay using Json.fields_induction with
  | h overlay ih =>
    intro base hdistinct hmeet
    have hnodup := (Json.distinct_obj.1 hdistinct).1
    refine mergeInto_of_absorbed fun e he => ?_
    obtain ⟨key, v⟩ := e
    have hval : overlay.lookup key = some v := (Assoc.lookup_eq_some hnodup).2 he
    have hresult : (mergeInto base overlay).lookup key = mergedValue (base.lookup key) v := by
      rw [lookup_mergeInto hnodup, hval]
    cases v with
    | null => exact mergeKey_of_removed hresult
    | obj overlayMap =>
      have hget (path : List String) (k : String) :
          Json.get ((key :: path) ++ [k]) (.obj overlay) = Json.get (path ++ [k]) (.obj overlayMap) := by
        rw [List.cons_append, Json.get_cons_obj, hval, Option.bind_some]
      have hdistinct := distinct_of_lookup hdistinct hval
      by_cases hbase : ∃ baseMap, base.lookup key = some (.obj baseMap)
      · obtain ⟨baseMap, hbase⟩ := hbase
        rw [hbase] at hresult
        refine mergeKey_of_merged hresult (ih key overlayMap he baseMap hdistinct fun path k h => ?_)
        obtain ⟨fields, hfields⟩ := hmeet (key :: path) k ((hget path k).trans h)
        rw [Json.get_cons_obj, hbase, Option.bind_some] at hfields
        exact ⟨fields, hfields⟩
      · -- the object was copied, so it has no `null`
        push Not at hbase
        rw [mergedValue_of_not_both (by simp) (.inr hbase)] at hresult
        refine mergeKey_of_merged hresult (mergeInto_self overlayMap hdistinct fun path k h => ?_)
        obtain ⟨fields, hfields⟩ := hmeet (key :: path) k ((hget path k).trans h)
        obtain ⟨u, hu, hfields⟩ := Json.get_obj_eq_some.1 hfields
        obtain ⟨inner, rfl⟩ : ∃ inner, u = .obj inner := by
          cases path with
          | nil => exact ⟨fields, Option.some.inj hfields⟩
          | cons k' path =>
            obtain ⟨inner, -, rfl, -⟩ := Json.get_cons_eq_some.1 hfields
            exact ⟨inner, rfl⟩
        exact hbase inner hu
    | _ =>
      rw [mergedValue_of_not_both (by simp) (.inl (by simp [IsLeaf]))] at hresult
      exact mergeKey_of_kept (by simp) (by simp [IsLeaf]) hresult

private theorem mergeOverlay_get (base overlay : JsonMap) (path : List String) :
    (mergeOverlay base overlay).get path = Json.get path (.obj (mergeInto base.fields overlay.fields)) := by
  show Json.get path (.obj (mergeFields _ _)) = _
  rw [mergeFields_eq]

theorem mergeLaw_iff (base overlay : JsonMap) :
    MergeLaw base overlay ↔
      ∀ path key, overlay.get (path ++ [key]) = some .null → ∃ fields, base.get path = some (.obj fields) := by
  constructor
  · intro hlaw path key hnull
    have hremoved := hlaw.removed _ hnull
    rw [mergeOverlay_get] at hremoved
    exact (get_null_iff overlay.distinct hnull).1 hremoved
  · intro hmeet
    refine ⟨fun path hnull => ?_, fun path v hval hnull hleaf => ?_, fun path hleaves => ?_, ?_⟩
    · rw [mergeOverlay_get]
      rcases List.eq_nil_or_concat' path with rfl | ⟨path, key, rfl⟩
      · rw [JsonMap.get, Json.get_nil] at hnull
        cases hnull
      · exact (get_null_iff overlay.distinct hnull).2 (hmeet path key hnull)
    · rw [mergeOverlay_get]
      exact get_kept overlay.distinct hval hnull hleaf
    · rw [mergeOverlay_get]
      exact get_untouched overlay.distinct hleaves
    · ext1
      show mergeFields (mergeFields _ _) _ = mergeFields _ _
      rw [mergeFields_eq, mergeFields_eq]
      exact mergeInto_idem overlay.fields base.fields overlay.distinct hmeet

/-- The overlay `{"a": {"b": null}}`. -/
def nestedNull : JsonMap := ⟨[("a", .obj [("b", .null)])], by decide⟩

/-- The overlay puts its `null` into a base without `a`. -/
theorem not_mergeLaw_nestedNull : ¬ MergeLaw ⟨[], rfl⟩ nestedNull := by
  intro h
  have hremoved := h.removed ["a", "b"] (by decide)
  exact absurd hremoved (by decide)

end Noda.Config
