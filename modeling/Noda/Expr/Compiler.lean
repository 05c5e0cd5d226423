import Noda.Engine.Refs
import Noda.Lib.Transition

/-!
# The expression compiler and its cache

`Compiler.Compile` with any number of calls side by side.  A call looks its input up under the read lock, parses and
compiles it without a lock, and stores the result under the write lock; each of the three is one step.  `expr.Compile`
is a parameter (`exprCompile`).

`order` lists the keys of `cache` as they were added.  The slice `order[evictCount:]` is in range only because the two
agree (`Coherent`): `addToCache` is partial here, and a call that slices out of range stops the system (`panicked`).
-/

namespace Noda.Expr

open Engine Transition

variable {P E : Type}

/-! ## Compiling one input -/

/-- A parsed input with its programs, one for each expression segment. -/
structure CompiledExpression (P : Type) where
  parsed : ParsedExpression
  programs : List (Option P)
  deriving DecidableEq, Repr

/-- The errors of `Compile`: a template that does not parse, or an expression that does not compile. -/
inductive CompileError (E : Type) where
  | parse (err : ParseError)
  | expression (value : String) (err : E)
  deriving DecidableEq, Repr

def compileSegment (exprCompile : String → Except E P) : Segment → Except (CompileError E) (Option P)
  | .literal _ => .ok none
  | .expression value =>
    match exprCompile value with
    | .error err => .error (.expression value err)
    | .ok program => .ok (some program)

/-- What `Compile` does between the look-up and the storing of the result. -/
def compileInput (exprCompile : String → Except E P) (input : String) :
    Except (CompileError E) (CompiledExpression P) :=
  match parseExpr input with
  | .error err => .error (.parse err)
  | .ok parsed =>
    if parsed.isLiteral then .ok ⟨parsed, parsed.segments.map fun _ => none⟩
    else
      match parsed.segments.mapM (compileSegment exprCompile) with
      | .error err => .error err
      | .ok programs => .ok ⟨parsed, programs⟩

/-! ## The cache -/

/-- The fields of `Compiler` under its lock. -/
structure Compiler (P : Type) where
  cache : GoMap (CompiledExpression P) := ∅
  order : List String := []

/-- The number of entries that are evicted at once. -/
def evictCount (maxCacheSize : Int) : Nat := (max (maxCacheSize / 4) 1).toNat

/-- The limit is reached. -/
def Compiler.full (maxCacheSize : Int) (c : Compiler P) : Bool :=
  0 < maxCacheSize && maxCacheSize ≤ c.cache.keys.length

/-- The keys that `addToCache` evicts. -/
def Compiler.oldest (maxCacheSize : Int) (c : Compiler P) : List String :=
  if c.full maxCacheSize then c.order.take (evictCount maxCacheSize) else []

/-- The eviction of the oldest entries; `none` when the slice `order[evictCount:]` is out of range. -/
def Compiler.evict (maxCacheSize : Int) (c : Compiler P) : Option (Compiler P) :=
  if !c.full maxCacheSize then some c
  else if evictCount maxCacheSize ≤ c.order.length then
    some { cache := (c.oldest maxCacheSize).foldl (fun cache key => cache.erase key) c.cache,
           order := c.order.drop (evictCount maxCacheSize) }
  else none

/-- `addToCache`. -/
def Compiler.addToCache (maxCacheSize : Int) (c : Compiler P) (key : String) (compiled : CompiledExpression P) :
    Option (Compiler P) :=
  (c.evict maxCacheSize).map fun c =>
    { order := if key ∈ c.cache then c.order else c.order ++ [key], cache := c.cache.insert key compiled }

/-! ## Calls side by side -/

/-- Where a call of `Compile` is. -/
inductive Phase (P E : Type) where
  | start
  | missed
  | compiled (result : CompiledExpression P)
  | done (result : Except (CompileError E) (CompiledExpression P))

structure Call (P E : Type) where
  input : String
  phase : Phase P E

/-- `addedAt` says when a key of the cache was added, by a clock that counts the calls of `addToCache`; both are
ghosts. -/
structure State (P E : Type) where
  compiler : Compiler P := {}
  panicked : Bool := false
  calls : List (Call P E) := []
  clock : Nat := 0
  addedAt : String → Nat := fun _ => 0

/-- A new call of `Compile`, or a step of one. -/
inductive Action where
  | call (input : String)
  | step (i : Nat)

/-- Call `i` stores its result: a key that is in the cache and stays there keeps its place. -/
def State.store (maxCacheSize : Int) (s : State P E) (i : Nat) (input : String) (result : CompiledExpression P) :
    State P E :=
  match s.compiler.addToCache maxCacheSize input result with
  | none => { s with panicked := true }
  | some compiler =>
    { s with
      compiler
      calls := s.calls.set i ⟨input, .done (.ok result)⟩
      clock := s.clock + 1
      addedAt := if input ∈ s.compiler.cache ∧ input ∉ s.compiler.oldest maxCacheSize then s.addedAt
        else Function.update s.addedAt input s.clock }

/-- One step of call `i`. -/
def State.advance (exprCompile : String → Except E P) (maxCacheSize : Int) (s : State P E) (i : Nat) (c : Call P E) :
    Option (State P E) :=
  match c.phase with
  | .start =>
    let phase := match s.compiler.cache.lookup c.input with
      | some cached => .done (.ok cached)
      | none => .missed
    some { s with calls := s.calls.set i ⟨c.input, phase⟩ }
  | .missed =>
    let phase := match compileInput exprCompile c.input with
      | .error err => .done (.error err)
      | .ok result => .compiled result
    some { s with calls := s.calls.set i ⟨c.input, phase⟩ }
  | .compiled result => some (s.store maxCacheSize i c.input result)
  | .done _ => none

def step (exprCompile : String → Except E P) (maxCacheSize : Int) (s : State P E) : Action → Option (State P E)
  | .call input => if s.panicked then none else some { s with calls := s.calls ++ [⟨input, .start⟩] }
  | .step i =>
    if s.panicked then none else (s.calls[i]?).bind fun c => s.advance exprCompile maxCacheSize i c

/-! ## The order and the cache agree -/

/-- `order` enumerates the keys of `cache`, and there are not too many of them. -/
structure Coherent (maxCacheSize : Int) (c : Compiler P) : Prop where
  nodup : c.order.Nodup
  mem_iff : ∀ key, key ∈ c.order ↔ key ∈ c.cache
  bound : 0 < maxCacheSize → (c.cache.keys.length : Int) ≤ maxCacheSize

private theorem lookup_foldl_erase {α : Type} (keys : List String) (m : GoMap α) (key : String) :
    (keys.foldl (fun m k => m.erase k) m).lookup key = if key ∈ keys then none else m.lookup key := by
  induction keys generalizing m with
  | nil => simp
  | cons k keys ih =>
    rw [List.foldl_cons, ih]
    by_cases hk : key = k
    · subst hk
      simp
    · rw [AList.lookup_erase_ne hk]
      simp [hk]

theorem length_keys {α : Type} {m : GoMap α} {keys : List String} (hnd : keys.Nodup)
    (hmem : ∀ k, k ∈ keys ↔ k ∈ m) :
    m.keys.length = keys.length := by
  have hperm : keys.Perm m.keys := by
    rw [List.perm_ext_iff_of_nodup hnd m.keys_nodup]
    intro k
    rw [hmem, AList.mem_keys]
  exact hperm.length_eq.symm

/-- The order after `key` has been stored: a key that is there keeps its place. -/
def appendKey (order : List String) (key : String) : List String := if key ∈ order then order else order ++ [key]

private theorem mem_appendKey {order : List String} {key k : String} :
    k ∈ appendKey order key ↔ k = key ∨ k ∈ order := by
  unfold appendKey
  by_cases hin : key ∈ order
  · simp only [hin, if_true, iff_or_self]
    rintro rfl
    exact hin
  · simp [hin, or_comm]

private theorem nodup_appendKey {order : List String} (hnd : order.Nodup) (key : String) :
    (appendKey order key).Nodup := by
  unfold appendKey
  by_cases hin : key ∈ order
  · simpa [hin] using hnd
  · rw [if_neg hin, ← List.concat_eq_append]
    exact hnd.concat hin

private theorem length_appendKey_le (order : List String) (key : String) :
    (appendKey order key).length ≤ order.length + 1 := by
  unfold appendKey
  split <;> simp

/-- The times after `key` has been stored. -/
def stamp (order : List String) (key : String) (clock : Nat) (addedAt : String → Nat) : String → Nat :=
  if key ∈ order then addedAt else Function.update addedAt key clock

/-- An order by the time of insertion stays one. -/
private theorem sorted_appendKey {order : List String} {clock : Nat} {addedAt : String → Nat}
    (hsorted : order.Pairwise fun j k => addedAt j < addedAt k) (hpast : ∀ k ∈ order, addedAt k < clock)
    (key : String) :
    ((appendKey order key).Pairwise fun j k => stamp order key clock addedAt j < stamp order key clock addedAt k) ∧
      ∀ k ∈ appendKey order key, stamp order key clock addedAt k < clock + 1 := by
  by_cases hin : key ∈ order
  · simp only [appendKey, stamp, if_pos hin]
    exact ⟨hsorted, fun k hk => Nat.lt_succ_of_lt (hpast k hk)⟩
  · have hne : ∀ k ∈ order, Function.update addedAt key clock k = addedAt k := by
      intro k hk
      have hkey : k ≠ key := fun he => hin (he ▸ hk)
      exact Function.update_of_ne hkey _ _
    have hself : Function.update addedAt key clock key = clock := Function.update_self ..
    simp only [appendKey, stamp, if_neg hin]
    constructor
    · rw [List.pairwise_append]
      refine ⟨hsorted.imp_of_mem fun hj hk hlt => ?_, List.pairwise_singleton _ _, fun j hj k hk => ?_⟩
      · rw [hne _ hj, hne _ hk]
        exact hlt
      · obtain rfl := List.mem_singleton.mp hk
        rw [hne j hj, hself]
        exact hpast j hj
    · intro k hk
      rw [List.mem_append, List.mem_singleton] at hk
      rcases hk with hk | rfl
      · have := hpast k hk
        rw [hne k hk]
        omega
      · rw [hself]
        omega

namespace Coherent

variable {maxCacheSize : Int} {c c' : Compiler P} {key : String} {compiled : CompiledExpression P}

/-- The slice is in range: a full cache has at least as many entries as are evicted. -/
private theorem evict_eq (h : Coherent maxCacheSize c) :
    ∃ c', c.evict maxCacheSize = some c' ∧ c.order = c.oldest maxCacheSize ++ c'.order ∧
      ∀ key, c'.cache.lookup key = if key ∈ c.oldest maxCacheSize then none else c.cache.lookup key := by
  by_cases hfull : c.full maxCacheSize = true
  · have hlen := length_keys h.nodup h.mem_iff
    have hcount : evictCount maxCacheSize ≤ c.order.length := by
      simp only [Compiler.full, Bool.and_eq_true, decide_eq_true_eq] at hfull
      unfold evictCount
      omega
    have hevict : c.evict maxCacheSize =
        some { cache := (c.oldest maxCacheSize).foldl (fun cache key => cache.erase key) c.cache,
               order := c.order.drop (evictCount maxCacheSize) } := by
      simp [Compiler.evict, hfull, hcount]
    refine ⟨_, hevict, ?_, fun key => lookup_foldl_erase _ _ _⟩
    simp [Compiler.oldest, hfull]
  · refine ⟨c, ?_, ?_, ?_⟩ <;> simp [Compiler.evict, Compiler.oldest, hfull]

/-- A full cache loses at least one entry. -/
private theorem oldest_length (h : Coherent maxCacheSize c) (hpos : 0 < maxCacheSize)
    (hlen : (c.order.length : Int) = maxCacheSize) : 1 ≤ (c.oldest maxCacheSize).length := by
  have hkeys := length_keys h.nodup h.mem_iff
  have hfull : c.full maxCacheSize = true := by
    simp only [Compiler.full, Bool.and_eq_true, decide_eq_true_eq]
    omega
  have hcount : 1 ≤ evictCount maxCacheSize := by
    unfold evictCount
    omega
  simp only [Compiler.oldest, hfull, if_true, List.length_take]
  omega

/-- `addToCache` never slices out of range.  The oldest keys go, the others keep their place, and the new key comes
last unless it is there already. -/
private theorem addToCache_eq (h : Coherent maxCacheSize c) (key : String) (compiled : CompiledExpression P) :
    ∃ c' rest, c.addToCache maxCacheSize key compiled = some c' ∧ Coherent maxCacheSize c' ∧
      c.order = c.oldest maxCacheSize ++ rest ∧ c'.order = appendKey rest key ∧
      ∀ k, c'.cache.lookup k = if k = key then some compiled else if k ∈ c.oldest maxCacheSize then none
        else c.cache.lookup k := by
  obtain ⟨room, hevict, horder, hlookup⟩ := h.evict_eq
  have hnd : (c.oldest maxCacheSize ++ room.order).Nodup := horder ▸ h.nodup
  have hmem : ∀ k, k ∈ room.order ↔ k ∈ room.cache := by
    intro k
    have hdisj : k ∈ c.oldest maxCacheSize → k ∉ room.order := fun ho hr => (List.nodup_append.mp hnd).2.2 k ho k hr rfl
    have hk := h.mem_iff k
    rw [horder, List.mem_append, ← AList.lookup_isSome] at hk
    rw [← AList.lookup_isSome, hlookup k]
    by_cases ho : k ∈ c.oldest maxCacheSize
    · simp [ho, hdisj ho]
    · simpa [ho] using hk
  have hnd' : (appendKey room.order key).Nodup := nodup_appendKey (List.nodup_append.mp hnd).2.1 key
  have hmem' : ∀ k, k ∈ appendKey room.order key ↔ k ∈ room.cache.insert key compiled := by
    intro k
    rw [mem_appendKey, AList.mem_insert, hmem]
  have hbound : 0 < maxCacheSize → ((room.cache.insert key compiled).keys.length : Int) ≤ maxCacheSize := by
    intro hpos
    have hle := length_appendKey_le room.order key
    have hlen : c.order.length = (c.oldest maxCacheSize).length + room.order.length := by
      rw [horder, List.length_append]
    have hold := h.oldest_length hpos
    have hbound := h.bound hpos
    rw [length_keys h.nodup h.mem_iff] at hbound
    rw [length_keys hnd' hmem']
    omega
  have hadd : c.addToCache maxCacheSize key compiled =
      some ⟨room.cache.insert key compiled, appendKey room.order key⟩ := by
    simp [Compiler.addToCache, hevict, appendKey, hmem]
  refine ⟨_, room.order, hadd, ⟨hnd', hmem', hbound⟩, horder, rfl, fun k => ?_⟩
  by_cases hk : k = key
  · subst hk
    simp
  · rw [AList.lookup_insert_ne hk, hlookup k, if_neg hk]

end Coherent

/-! ## Every interleaving -/

/-- What is known of a call, by where it is. -/
def CallOk (exprCompile : String → Except E P) (c : Call P E) : Prop :=
  match c.phase with
  | .start => True
  | .missed => True
  | .compiled result => compileInput exprCompile c.input = .ok result
  | .done result => result = compileInput exprCompile c.input

/-- The invariant of the system: `order` and `cache` agree, `order` is by the time of insertion, and every entry and
every result is what compiling its input gives. -/
structure Inv (exprCompile : String → Except E P) (maxCacheSize : Int) (s : State P E) : Prop where
  running : s.panicked = false
  coherent : Coherent maxCacheSize s.compiler
  sorted : s.compiler.order.Pairwise fun j k => s.addedAt j < s.addedAt k
  past : ∀ key ∈ s.compiler.order, s.addedAt key < s.clock
  cached : ∀ key compiled, s.compiler.cache.lookup key = some compiled → compileInput exprCompile key = .ok compiled
  calls : ∀ c ∈ s.calls, CallOk exprCompile c

variable {exprCompile : String → Except E P} {maxCacheSize : Int} {s s' : State P E}

theorem Inv.initial : Inv exprCompile maxCacheSize ({} : State P E) := by
  refine ⟨rfl, ⟨List.nodup_nil, fun key => ?_, fun hpos => ?_⟩, List.Pairwise.nil, ?_, ?_, ?_⟩
  · simp [AList.notMem_empty]
  · simpa using hpos.le
  · simp
  · simp
  · simp

theorem step_cases {a : Action} (h : step exprCompile maxCacheSize s a = some s') :
    (∃ input, s' = { s with calls := s.calls ++ [⟨input, .start⟩] }) ∨
    (∃ i c phase, s.calls[i]? = some c ∧ s' = { s with calls := s.calls.set i ⟨c.input, phase⟩ } ∧
      (phase = .missed ∨ (∃ cached, s.compiler.cache.lookup c.input = some cached ∧ phase = .done (.ok cached)) ∨
        (∃ err, compileInput exprCompile c.input = .error err ∧ phase = .done (.error err)) ∨
        (∃ result, compileInput exprCompile c.input = .ok result ∧ phase = .compiled result))) ∨
    (∃ i c result, s.calls[i]? = some c ∧ c.phase = .compiled result ∧ s' = s.store maxCacheSize i c.input result) := by
  cases a with
  | call input =>
    simp only [step] at h
    split at h
    · cases h
    · cases h
      exact .inl ⟨input, rfl⟩
  | step i =>
    simp only [step] at h
    split at h
    · cases h
    obtain ⟨c, hc, h⟩ := Option.bind_eq_some_iff.mp h
    cases hphase : c.phase with
    | start =>
      simp only [State.advance, hphase, Option.some.injEq] at h
      refine .inr (.inl ⟨i, c, _, hc, h.symm, ?_⟩)
      cases hlookup : s.compiler.cache.lookup c.input with
      | none => exact .inl rfl
      | some cached => exact .inr (.inl ⟨cached, rfl, rfl⟩)
    | missed =>
      simp only [State.advance, hphase, Option.some.injEq] at h
      refine .inr (.inl ⟨i, c, _, hc, h.symm, ?_⟩)
      cases hcompile : compileInput exprCompile c.input with
      | error err => exact .inr (.inr (.inl ⟨err, rfl, rfl⟩))
      | ok result => exact .inr (.inr (.inr ⟨result, rfl, rfl⟩))
    | compiled result =>
      simp only [State.advance, hphase, Option.some.injEq] at h
      exact .inr (.inr ⟨i, c, result, hc, hphase, h.symm⟩)
    | done result => simp [State.advance, hphase] at h

namespace Inv

private theorem calls_append (h : Inv exprCompile maxCacheSize s) (input : String) :
    Inv exprCompile maxCacheSize { s with calls := s.calls ++ [⟨input, .start⟩] } := by
  refine { h with calls := fun c hc => ?_ }
  rcases List.mem_append.mp hc with hc | hc
  · exact h.calls c hc
  · obtain rfl := List.mem_singleton.mp hc
    trivial

private theorem calls_set (h : Inv exprCompile maxCacheSize s) (i : Nat) {c : Call P E} (hc : CallOk exprCompile c) :
    Inv exprCompile maxCacheSize { s with calls := s.calls.set i c } := by
  refine { h with calls := fun c' hc' => ?_ }
  rcases List.mem_or_eq_of_mem_set hc' with hc' | rfl
  · exact h.calls c' hc'
  · exact hc

/-- The state after a result has been stored. -/
private theorem store_eq (h : Inv exprCompile maxCacheSize s) (i : Nat) (input : String)
    (result : CompiledExpression P) :
    ∃ c' rest, s.store maxCacheSize i input result =
        { s with
          compiler := c'
          calls := s.calls.set i ⟨input, .done (.ok result)⟩
          clock := s.clock + 1
          addedAt := stamp rest input s.clock s.addedAt } ∧
      Coherent maxCacheSize c' ∧ s.compiler.order = s.compiler.oldest maxCacheSize ++ rest ∧
      c'.order = appendKey rest input ∧
      ∀ k, c'.cache.lookup k = if k = input then some result else if k ∈ s.compiler.oldest maxCacheSize then none
        else s.compiler.cache.lookup k := by
  obtain ⟨c', rest, hadd, hc', horder, horder', hlookup⟩ := h.coherent.addToCache_eq input result
  refine ⟨c', rest, ?_, hc', horder, horder', hlookup⟩
  have hstays : (input ∈ s.compiler.cache ∧ input ∉ s.compiler.oldest maxCacheSize) ↔ input ∈ rest := by
    have hnd : (s.compiler.oldest maxCacheSize ++ rest).Nodup := horder ▸ h.coherent.nodup
    rw [← h.coherent.mem_iff, horder, List.mem_append]
    constructor
    · rintro ⟨hin | hin, hnot⟩
      · exact absurd hin hnot
      · exact hin
    · intro hin
      exact ⟨.inr hin, fun ho => (List.nodup_append.mp hnd).2.2 input ho input hin rfl⟩
  simp only [State.store, hadd, hstays, stamp]

private theorem store (h : Inv exprCompile maxCacheSize s) (i : Nat) {input : String} {result : CompiledExpression P}
    (hresult : compileInput exprCompile input = .ok result) :
    Inv exprCompile maxCacheSize (s.store maxCacheSize i input result) := by
  obtain ⟨c', rest, hstore, hc', horder, horder', hlookup⟩ := h.store_eq i input result
  have hsorted : (s.compiler.oldest maxCacheSize ++ rest).Pairwise fun j k => s.addedAt j < s.addedAt k :=
    horder ▸ h.sorted
  have hrest := (List.pairwise_append.mp hsorted).2.1
  have hpast : ∀ k ∈ rest, s.addedAt k < s.clock := fun k hk => h.past k (by simp [horder, hk])
  have hcached : ∀ key compiled, c'.cache.lookup key = some compiled → compileInput exprCompile key = .ok compiled := by
    intro key compiled hkey
    rw [hlookup key] at hkey
    by_cases hk : key = input
    · rw [if_pos hk] at hkey
      cases hkey
      rw [hk]
      exact hresult
    · rw [if_neg hk] at hkey
      split at hkey
      · cases hkey
      · exact h.cached key compiled hkey
  have hcalls : ∀ c ∈ s.calls.set i ⟨input, .done (.ok result)⟩, CallOk exprCompile c :=
    (h.calls_set i (c := ⟨input, .done (.ok result)⟩) hresult.symm).calls
  have hstamps := sorted_appendKey hrest hpast input
  rw [← horder'] at hstamps
  rw [hstore]
  exact ⟨h.running, hc', hstamps.1, hstamps.2, hcached, hcalls⟩

end Inv

/-- Every step of every call keeps the invariant. -/
theorem step_inv {a : Action} (h : Inv exprCompile maxCacheSize s)
    (hs : step exprCompile maxCacheSize s a = some s') :
    Inv exprCompile maxCacheSize s' := by
  rcases step_cases hs with ⟨input, rfl⟩ | ⟨i, c, phase, hc, rfl, hphase⟩ | ⟨i, c, result, hc, hphase, rfl⟩
  · exact h.calls_append input
  · refine h.calls_set i ?_
    rcases hphase with rfl | ⟨cached, hlookup, rfl⟩ | ⟨err, herr, rfl⟩ | ⟨result, hresult, rfl⟩
    · trivial
    · exact (h.cached c.input cached hlookup).symm
    · exact herr.symm
    · exact hresult
  · have hok := h.calls c (List.mem_of_getElem? hc)
    unfold CallOk at hok
    rw [hphase] at hok
    exact h.store i hok

theorem Inv.of_reachable (h : Reachable (step exprCompile maxCacheSize) {} s) : Inv exprCompile maxCacheSize s :=
  h.invariant Inv.initial fun _ _ _ => step_inv

/-- A key of the cache that a step takes out; it may have been added again in the same step. -/
def Evicted (s s' : State P E) (key : String) : Prop :=
  key ∈ s.compiler.cache ∧ (key ∉ s'.compiler.cache ∨ s'.addedAt key ≠ s.addedAt key)

theorem Inv.evicted_iff (h : Inv exprCompile maxCacheSize s) {a : Action}
    (hs : step exprCompile maxCacheSize s a = some s') :
    (∀ key, ¬ Evicted s s' key) ∨ ∀ key, Evicted s s' key ↔ key ∈ s.compiler.oldest maxCacheSize := by
  rcases step_cases hs with ⟨input, rfl⟩ | ⟨i, c, phase, hc, rfl, hphase⟩ | ⟨i, c, result, hc, hphase, rfl⟩
  · exact .inl fun key he => he.2.elim (fun hn => hn he.1) (fun hn => hn rfl)
  · exact .inl fun key he => he.2.elim (fun hn => hn he.1) (fun hn => hn rfl)
  · refine .inr fun key => ?_
    obtain ⟨c', rest, hstore, hc', horder, horder', hlookup⟩ := h.store_eq i c.input result
    have hnd : (s.compiler.oldest maxCacheSize ++ rest).Nodup := horder ▸ h.coherent.nodup
    have hmem : key ∈ s.compiler.cache ↔ key ∈ s.compiler.oldest maxCacheSize ∨ key ∈ rest := by
      rw [← h.coherent.mem_iff, horder, List.mem_append]
    have hmem' : key ∈ c'.cache ↔ key = c.input ∨ key ∈ rest := by
      rw [← hc'.mem_iff, horder', mem_appendKey]
    have hdisj : key ∈ s.compiler.oldest maxCacheSize → key ∉ rest :=
      fun ho hr => (List.nodup_append.mp hnd).2.2 key ho key hr rfl
    rw [hstore]
    show key ∈ s.compiler.cache ∧ (key ∉ c'.cache ∨ stamp rest c.input s.clock s.addedAt key ≠ s.addedAt key) ↔ _
    rw [hmem, hmem']
    constructor
    · rintro ⟨ho | hr, hout⟩
      · exact ho
      · rcases hout with hout | hout
        · exact absurd (.inr hr) hout
        · refine absurd ?_ hout
          unfold stamp
          split
          · rfl
          · rename_i hnot
            have hne : key ≠ c.input := fun he => hnot (he ▸ hr)
            exact Function.update_of_ne hne _ _
    · intro ho
      refine ⟨.inl ho, ?_⟩
      by_cases hk : key = c.input
      · right
        have hpast := h.past key (by simp [horder, ho])
        rw [hk] at hdisj ho hpast ⊢
        rw [stamp, if_neg (hdisj ho), Function.update_self]
        omega
      · left
        rintro (he | hr)
        · exact hk he
        · exact hdisj ho hr

/-- For every limit and every interleaving of calls of `Compile`: `order` enumerates the keys of `cache` without
repetition, the limit is kept, no slice is out of range, and a key is evicted only together with every key of the
cache that was added before it. -/
theorem cache_invariant (exprCompile : String → Except E P) (maxCacheSize : Int) (s : State P E)
    (h : Reachable (step exprCompile maxCacheSize) {} s) :
    s.compiler.order.Nodup ∧ (∀ key, key ∈ s.compiler.order ↔ key ∈ s.compiler.cache) ∧
      (0 < maxCacheSize → (s.compiler.cache.keys.length : Int) ≤ maxCacheSize) ∧ s.panicked = false ∧
      ∀ a s', step exprCompile maxCacheSize s a = some s' → s'.panicked = false ∧
        ∀ key, Evicted s s' key → ∀ older ∈ s.compiler.cache, s.addedAt older < s.addedAt key →
          Evicted s s' older := by
  have hinv := Inv.of_reachable h
  refine ⟨hinv.coherent.nodup, hinv.coherent.mem_iff, hinv.coherent.bound, hinv.running, fun a s' hs => ?_⟩
  refine ⟨(step_inv hinv hs).running, fun key hkey older holder hlt => ?_⟩
  rcases hinv.evicted_iff hs with hnone | hiff
  · exact absurd hkey (hnone key)
  · obtain ⟨c', -, horder, -⟩ := hinv.coherent.evict_eq
    have hsorted : (s.compiler.oldest maxCacheSize ++ c'.order).Pairwise fun j k => s.addedAt j < s.addedAt k :=
      horder ▸ hinv.sorted
    have hin : older ∈ s.compiler.oldest maxCacheSize ++ c'.order := horder ▸ (hinv.coherent.mem_iff older).mpr holder
    refine (hiff older).mpr ?_
    rcases List.mem_append.mp hin with ho | hr
    · exact ho
    · -- a key behind the evicted ones is newer than each of them
      have := (List.pairwise_append.mp hsorted).2.2 key ((hiff key).mp hkey) older hr
      omega

/-- Two calls compile the same text in a cache of one entry, and the second one evicts the entry of the first. -/
def twoCalls : List Action :=
  [.call "\x7b\x7b a \x7d\x7d", .call "\x7b\x7b a \x7d\x7d", .step 0, .step 1, .step 0, .step 1, .step 0, .step 1]

theorem cache_invariant_twoCalls :
    ∃ s : State String Unit, run (step .ok 1) {} twoCalls = some s ∧ s.clock = 2 ∧ s.compiler.order.Nodup ∧
      (∀ key, key ∈ s.compiler.order ↔ key ∈ s.compiler.cache) ∧
      (0 < (1 : Int) → (s.compiler.cache.keys.length : Int) ≤ 1) ∧ s.panicked = false := by
  obtain ⟨s, hs, hp⟩ := exists_run (step (E := Unit) (P := String) .ok 1) {} twoCalls (p := fun s => s.clock == 2)
    (by decide +kernel)
  obtain ⟨h₁, h₂, h₃, h₄, -⟩ := cache_invariant .ok 1 s ⟨twoCalls, hs⟩
  exact ⟨s, hs, by simpa using hp, h₁, h₂, h₃, h₄⟩

end Noda.Expr
