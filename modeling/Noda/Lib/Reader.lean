import Mathlib.Data.List.Basic

/-!
# Readers

`io.Reader` and `io.ReadAll` of the Go standard library.  A reader with the state `s` answers a `Read` into a buffer of
`m` bytes with some bytes, an error and its next state (`ReadFn`).  `readAll` reads into a buffer that it lets grow and
stops at the first error; `readAll_rule` is the invariant rule for it.

`handOut` is a reader of some content.  How it hands out the content is free: `chunks` are the numbers of bytes that it
would return in its first calls, zero included, and `Ending` says how it ends.  A reading that ends makes only finitely
many calls, so every behaviour of a reader that leads to an end is one of these.
-/

namespace Reader

inductive Err where
  | eof
  | failed (message : String)
  deriving DecidableEq, Repr

/-- `Read(p)` for a buffer of the given length. -/
abbrev ReadFn (σ : Type) := σ → Nat → List UInt8 × Option Err × σ

variable {σ : Type}

/-- The loop of `io.ReadAll`, with the bytes read so far and the capacity of the buffer; a full buffer grows by at least
one byte.  `none` means that the fuel is used up. -/
def readAll (read : ReadFn σ) (extra : Nat → Nat) : Nat → σ → List UInt8 → Nat → Option (List UInt8 × Option Err × σ)
  | 0, _, _, _ => none
  | fuel + 1, s, buf, cap =>
    match read s (cap - buf.length) with
    | (bs, some .eof, s) => some (buf ++ bs, none, s)
    | (bs, some (.failed msg), s) => some (buf ++ bs, some (.failed msg), s)
    | (bs, none, s) =>
      let buf := buf ++ bs
      readAll read extra fuel s buf (if buf.length = cap then cap + 1 + extra cap else cap)

/-- What one `Read` of the loop establishes: it goes on, or it ends with `Post`. -/
def Establishes (Inv : σ → List UInt8 → Prop) (Post : List UInt8 → Option Err → σ → Prop) (left : Nat)
    (measure : σ → Nat)
    (buf : List UInt8) : List UInt8 × Option Err × σ → Prop
  | (bs, none, s) => Inv s (buf ++ bs) ∧ measure s < left
  | (bs, some .eof, s) => Post (buf ++ bs) none s
  | (bs, some (.failed msg), s) => Post (buf ++ bs) (some (.failed msg)) s

/-- The loop ends with `Post` if every `Read` into a buffer with room keeps the invariant and brings the end nearer, or
ends the loop with `Post`. -/
theorem readAll_rule {read : ReadFn σ} {Inv : σ → List UInt8 → Prop} {Post : List UInt8 → Option Err → σ → Prop}
    {measure : σ → Nat}
    (hread : ∀ s buf m, 0 < m → Inv s buf → Establishes Inv Post (measure s) measure buf (read s m) ∧
      (read s m).1.length ≤ m)
    (extra : Nat → Nat) {fuel : Nat} {s : σ} {buf : List UInt8} {cap : Nat} (hinv : Inv s buf) (hcap : buf.length < cap)
    (hfuel : measure s < fuel) :
    ∃ content err s', readAll read extra fuel s buf cap = some (content, err, s') ∧ Post content err s' := by
  induction fuel generalizing s buf cap with
  | zero => omega
  | succ fuel ih =>
    obtain ⟨hest, hlength⟩ := hread s buf (cap - buf.length) (by omega) hinv
    unfold readAll
    rcases hr : read s (cap - buf.length) with ⟨bs, _ | _ | msg, s'⟩
    · -- the loop goes on
      rw [hr] at hest hlength
      obtain ⟨hinv', hless⟩ := hest
      refine ih hinv' ?_ (by omega)
      simp only [List.length_append] at hlength ⊢
      split_ifs with hfull
      · omega
      · omega
    · rw [hr] at hest
      exact ⟨_, _, _, rfl, hest⟩
    · rw [hr] at hest
      exact ⟨_, _, _, rfl, hest⟩

/-! ### A reader of some content -/

/-- How a reader ends: `io.EOF` in the same call as the last bytes, or in a call of its own, or a failure after the
chunks. -/
inductive Ending where
  | together
  | separate
  | failure (message : String)
  deriving DecidableEq, Repr

structure Source where
  rest : List UInt8
  chunks : List Nat
  deriving DecidableEq, Repr

/-- The next `k` bytes. -/
def Source.deliver (ending : Ending) (s : Source) (k : Nat) (chunks : List Nat) : List UInt8 × Option Err × Source :=
  (s.rest.take k, if s.rest ≠ [] ∧ s.rest.drop k = [] ∧ ending = .together then some .eof else none,
    ⟨s.rest.drop k, chunks⟩)

/-- A `Read` gets the bytes of the next chunk, as far as they fit; after the chunks it gets as many as fit. -/
def handOut (ending : Ending) : ReadFn Source := fun s m =>
  match s.chunks with
  | n :: chunks => s.deliver ending (min n m) chunks
  | [] =>
    match ending with
    | .failure msg => ([], some (.failed msg), s)
    | _ => if s.rest = [] then ([], some .eof, s) else s.deliver ending m []

/-- A bound for the number of calls that are left. -/
def Source.left (s : Source) : Nat := s.chunks.length + s.rest.length

/-- What a `Read` of at least one byte tells. -/
structure Reads (ending : Ending) (s : Source) (m : Nat) (bs : List UInt8) (err : Option Err) (s' : Source) : Prop where
  split : bs ++ s'.rest = s.rest
  length_le : bs.length ≤ m
  progress : err = none → s'.left < s.left
  /-- with `together`, the last bytes do not come alone -/
  more : err = none → s.rest ≠ [] → s'.rest = [] → ending ≠ .together
  eof : err = some .eof → s'.rest = [] ∧ (s.rest = [] ∨ ending = .together) ∧ ∀ msg, ending ≠ .failure msg
  failed : ∀ msg, err = some (.failed msg) → ending = .failure msg

private theorem deliver_reads {ending : Ending} {s : Source} {k m : Nat} {chunks : List Nat} (hk : k ≤ m)
    (hleft : chunks.length + (s.rest.length - k) < s.left) :
    Reads ending s m (s.deliver ending k chunks).1 (s.deliver ending k chunks).2.1 (s.deliver ending k chunks).2.2 where
  split := List.take_append_drop k s.rest
  length_le := by
    show (s.rest.take k).length ≤ m
    rw [List.length_take]
    omega
  progress := by
    intro _
    show chunks.length + (s.rest.drop k).length < s.left
    rwa [List.length_drop]
  more := by
    intro herr hrest hlast htogether
    simp only [Source.deliver] at herr hlast
    rw [if_pos ⟨hrest, hlast, htogether⟩] at herr
    cases herr
  eof := by
    intro herr
    simp only [Source.deliver] at herr ⊢
    split_ifs at herr with hlast
    obtain ⟨-, hlast, rfl⟩ := hlast
    exact ⟨hlast, .inr rfl, fun _ h => by cases h⟩
  failed := by
    intro msg herr
    simp only [Source.deliver] at herr
    split_ifs at herr
    cases herr

theorem handOut_reads (ending : Ending) (s : Source) {m : Nat} (hm : 0 < m) :
    Reads ending s m (handOut ending s m).1 (handOut ending s m).2.1 (handOut ending s m).2.2 := by
  unfold handOut
  split
  · rename_i n chunks hchunks
    refine deliver_reads (Nat.min_le_right n m) ?_
    rw [Source.left, hchunks, List.length_cons]
    omega
  · rename_i hchunks
    split
    · rename_i msg
      exact {
        split := rfl
        length_le := Nat.zero_le m
        progress := fun h => by cases h
        more := fun h => by cases h
        eof := fun h => by cases h
        failed := fun _ h => by cases h; rfl }
    · rename_i hending
      split_ifs with hrest
      · exact {
          split := rfl
          length_le := Nat.zero_le m
          progress := fun h => by cases h
          more := fun h => by cases h
          eof := fun _ => ⟨hrest, .inl hrest, hending⟩
          failed := fun _ h => by cases h }
      · refine deliver_reads (Nat.le_refl m) ?_
        have hpos : 0 < s.rest.length := List.length_pos_iff.2 hrest
        rw [Source.left, hchunks, List.length_nil]
        omega

end Reader
