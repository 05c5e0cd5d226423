import Mathlib.Data.List.Infix

/-!
# Rewriting from left to right

A text is read once from left to right: where a token begins, the value of the token is written in its place, and the
reading goes on behind the token (`rewrite`).  What is written is not read again.

`strings.ReplaceAll` is the rewriting with one token (`replaceAll`).  A letter that the token does not have separates
the text (`replaceAll_append_cons`), and a token that is replaced by such a letter is gone (`not_infix_replaceAll`).
-/

namespace Rewrite

variable {α β γ : Type}

/-- The text with the values of its tokens, where `find` tells the token that begins a text and how many letters it has
behind its first one; the first `k` letters belong to the last token. -/
def rewrite (find : List α → Option (ℕ × β)) (val : β → List α) : ℕ → List α → List α
  | _, [] => []
  | k + 1, _ :: s => rewrite find val k s
  | 0, c :: s =>
    match find (c :: s) with
    | some (n, b) => val b ++ rewrite find val n s
    | none => c :: rewrite find val 0 s

section Rewrite

variable {find : List α → Option (ℕ × β)} {val : β → List α} {find' : List α → Option (ℕ × γ)} {val' : γ → List α}
  {c : α} {s : List α} {n : ℕ} {b : β}

@[simp] theorem rewrite_nil (k : ℕ) : rewrite find val k [] = [] := by
  cases k <;> rfl

private theorem rewrite_drop (k : ℕ) (s : List α) : rewrite find val k s = rewrite find val 0 (s.drop k) := by
  induction s generalizing k with
  | nil => simp
  | cons c s ih =>
    cases k with
    | zero => rfl
    | succ k => exact ih k

private theorem rewrite_cons_some (h : find (c :: s) = some (n, b)) :
    rewrite find val 0 (c :: s) = val b ++ rewrite find val n s := by
  rw [rewrite, h]

private theorem rewrite_cons_none (h : find (c :: s) = none) :
    rewrite find val 0 (c :: s) = c :: rewrite find val 0 s := by
  rw [rewrite, h]

/-- Rewritings that find the same tokens with the same values in a text are the same. -/
theorem rewrite_congr (k : ℕ) (h : ∀ t, t <:+ s →
    (find t).map (fun e => (e.1, val e.2)) = (find' t).map (fun e => (e.1, val' e.2))) :
    rewrite find val k s = rewrite find' val' k s := by
  induction s generalizing k with
  | nil => simp
  | cons c s ih =>
    have hs := fun k => ih k fun t ht => h t (ht.trans (List.suffix_cons c s))
    have hc := h (c :: s) List.suffix_rfl
    cases k with
    | succ k => exact hs k
    | zero =>
      cases hf : find (c :: s) with
      | none =>
        rw [hf, Option.map_none, eq_comm, Option.map_eq_none_iff] at hc
        rw [rewrite_cons_none hf, rewrite_cons_none hc, hs]
      | some e =>
        rw [hf, Option.map_some, eq_comm, Option.map_eq_some_iff] at hc
        obtain ⟨e', hf', he⟩ := hc
        obtain ⟨hn, hv⟩ := Prod.mk.inj he
        rw [rewrite_cons_some hf, rewrite_cons_some hf', hn, hv, hs]

/-- A text without tokens stays as it is. -/
theorem rewrite_eq_self (h : ∀ t, t <:+ s → find t = none) : rewrite find val 0 s = s := by
  induction s with
  | nil => rfl
  | cons c s ih =>
    rw [rewrite_cons_none (h _ List.suffix_rfl), ih fun t ht => h t (ht.trans (List.suffix_cons c s))]

/-- The value of the first token is in the text, whatever the values are. -/
theorem exists_val_infix_rewrite {t : List α} (ht : t <:+ s) (hne : t ≠ []) (hf : find t ≠ none) :
    ∃ t n b, find t = some (n, b) ∧ ∀ val : β → List α, val b <:+: rewrite find val 0 s := by
  induction s with
  | nil => exact absurd (List.suffix_nil.1 ht) hne
  | cons c s ih =>
    cases hc : find (c :: s) with
    | some e =>
      refine ⟨c :: s, e.1, e.2, hc, fun val => ?_⟩
      rw [rewrite_cons_some hc]
      exact (List.prefix_append _ _).isInfix
    | none =>
      have ht : t <:+ s := by
        rcases List.suffix_cons_iff.1 ht with rfl | ht
        · exact absurd hc hf
        · exact ht
      obtain ⟨t, n, b, hfind, hval⟩ := ih ht
      refine ⟨t, n, b, hfind, fun val => ?_⟩
      rw [rewrite_cons_none hc]
      exact (hval val).trans (List.suffix_cons _ _).isInfix

/-- No text grows by more than the length of the longest value for each of its letters. -/
theorem length_rewrite_le {m : ℕ} (hm : 1 ≤ m) (h : ∀ b, (val b).length ≤ m) (k : ℕ) (s : List α) :
    (rewrite find val k s).length ≤ s.length * m := by
  induction s generalizing k with
  | nil => simp
  | cons c s ih =>
    have hs : (s.length + 1) * m = s.length * m + m := Nat.succ_mul _ _
    cases k with
    | succ k =>
      have := ih k
      rw [rewrite, List.length_cons]
      omega
    | zero =>
      cases hf : find (c :: s) with
      | none =>
        have := ih 0
        rw [rewrite_cons_none hf, List.length_cons, List.length_cons]
        omega
      | some e =>
        have := ih e.1
        have := h e.2
        rw [rewrite_cons_some hf, List.length_append, List.length_cons]
        omega

end Rewrite

section ReplaceAll

variable [DecidableEq α] {old new : List α} {c d : α} {s : List α}

/-- The token `old` at the beginning of a text. -/
def findOld (old : List α) (s : List α) : Option (ℕ × Unit) := if old <+: s then some (old.length - 1, ()) else none

/-- `strings.ReplaceAll(s, old, new)`, where `old` is not empty. -/
def replaceAll (old new s : List α) : List α := rewrite (findOld old) (fun _ => new) 0 s

theorem findOld_eq_none (h : ¬ old <+: s) : findOld old s = none := if_neg h

theorem replaceAll_of_not_infix (h : ¬ old <:+: s) : replaceAll old new s = s := by
  refine rewrite_eq_self fun t ht => findOld_eq_none fun hold => h ?_
  exact hold.isInfix.trans ht.isInfix

theorem replaceAll_old_append (hold : old ≠ []) (s : List α) :
    replaceAll old new (old ++ s) = new ++ replaceAll old new s := by
  obtain ⟨c, old, rfl⟩ := List.exists_cons_of_ne_nil hold
  have hfind : findOld (c :: old) (c :: (old ++ s)) = some (old.length, ()) := if_pos (List.prefix_append (c :: old) s)
  rw [replaceAll, List.cons_append, rewrite_cons_some hfind, rewrite_drop, List.drop_left]
  rfl

theorem replaceAll_cons_kept (h : ¬ old <+: c :: s) :
    replaceAll old new (c :: s) = c :: replaceAll old new s := by
  exact rewrite_cons_none (findOld_eq_none h)

theorem reading_induction {P : List α → Prop} (hold : old ≠ []) (nil : P []) (replaced : ∀ s, P s → P (old ++ s))
    (kept : ∀ c s, ¬ old <+: c :: s → P s → P (c :: s)) (s : List α) : P s := by
  induction hn : s.length using Nat.strong_induction_on generalizing s with
  | _ n ih =>
    by_cases h : old <+: s
    · obtain ⟨s, rfl⟩ := h
      have hlen := List.length_pos_iff.2 hold
      rw [List.length_append] at hn
      exact replaced s (ih s.length (by omega) s rfl)
    · cases s with
      | nil => exact nil
      | cons c s =>
        rw [List.length_cons] at hn
        exact kept c s h (ih s.length (by omega) s rfl)

theorem new_infix_replaceAll (new : List α) (hold : old ≠ []) (h : old <:+: s) : new <:+: replaceAll old new s := by
  obtain ⟨t, hpre, hsuffix⟩ := List.infix_iff_prefix_suffix.1 h
  have hfind : findOld old t ≠ none := by rw [findOld, if_pos hpre]; simp
  have hne : t ≠ [] := by
    rintro rfl
    exact hold (List.prefix_nil.1 hpre)
  obtain ⟨_, _, _, _, hval⟩ := exists_val_infix_rewrite hsuffix hne hfind
  exact hval fun _ => new

omit [DecidableEq α] in
theorem not_prefix_cons (hold : old ≠ []) (hd : d ∉ old) (s : List α) : ¬ old <+: d :: s := by
  obtain ⟨c, old, rfl⟩ := List.exists_cons_of_ne_nil hold
  intro h
  rw [(List.cons_prefix_cons.1 h).1] at hd
  exact hd List.mem_cons_self

omit [DecidableEq α] in
theorem prefix_of_prefix_append_cons {x y : List α} (hd : d ∉ old) (h : old <+: x ++ d :: y) : old <+: x := by
  rcases List.prefix_or_prefix_of_prefix h (List.prefix_append x _) with hx | ⟨z, rfl⟩
  · exact hx
  · rw [List.prefix_append_right_inj] at h
    cases z with
    | nil => rw [List.append_nil]
    | cons e z =>
      rw [(List.cons_prefix_cons.1 h).1] at hd
      exact absurd (List.mem_append_right x List.mem_cons_self) hd

/-- A letter that `old` does not have separates the text. -/
theorem replaceAll_append_cons (hold : old ≠ []) (hd : d ∉ old) (x y : List α) :
    replaceAll old new (x ++ d :: y) = replaceAll old new x ++ d :: replaceAll old new y := by
  induction x using reading_induction hold with
  | nil => exact replaceAll_cons_kept (not_prefix_cons hold hd y)
  | replaced x ih =>
    rw [List.append_assoc, replaceAll_old_append hold, ih, replaceAll_old_append hold, List.append_assoc]
  | kept c x h ih =>
    have hlong : ¬ old <+: c :: (x ++ d :: y) := fun hp => h (prefix_of_prefix_append_cons hd hp)
    rw [List.cons_append, replaceAll_cons_kept hlong, ih, replaceAll_cons_kept h, List.cons_append]

/-- A text without the letter that begins the result begins the text that is read. -/
theorem prefix_of_prefix_replaceAll {t : List α} (hold : old ≠ []) (hd : d ∉ t) (h : t <+: replaceAll old [d] s) :
    t <+: s := by
  induction s using reading_induction hold generalizing t with
  | nil => exact h
  | replaced s _ =>
    rw [replaceAll_old_append hold] at h
    by_cases ht : t = []
    · rw [ht]
      exact List.nil_prefix
    · exact absurd h (not_prefix_cons ht hd _)
  | kept c s hc ih =>
    rw [replaceAll_cons_kept hc] at h
    cases t with
    | nil => exact List.nil_prefix
    | cons e t =>
      rw [List.cons_prefix_cons] at h ⊢
      exact ⟨h.1, ih (fun hmem => hd (List.mem_cons_of_mem e hmem)) h.2⟩

/-- What is replaced by a letter that it does not have is gone. -/
theorem not_infix_replaceAll (hold : old ≠ []) (hd : d ∉ old) (s : List α) : ¬ old <:+: replaceAll old [d] s := by
  induction s using reading_induction hold with
  | nil => exact fun h => hold (List.infix_nil.1 h)
  | replaced s ih =>
    rw [replaceAll_old_append hold, List.singleton_append, List.infix_cons_iff, not_or]
    exact ⟨not_prefix_cons hold hd _, ih⟩
  | kept c s h ih =>
    have hpre : ¬ old <+: replaceAll old [d] (c :: s) := fun hp => h (prefix_of_prefix_replaceAll hold hd hp)
    rw [replaceAll_cons_kept h] at hpre ⊢
    rw [List.infix_cons_iff, not_or]
    exact ⟨hpre, ih⟩

end ReplaceAll

/-! ### Pieces -/

/-- A piece of a text: a letter, or a token with its text. -/
inductive Piece (α β : Type) where
  | letter (a : α)
  | token (text : List α) (b : β)

namespace Piece

def text : Piece α β → List α
  | letter a => [a]
  | token text _ => text

/-- The token of a piece. -/
def found : Piece α β → Option β
  | letter _ => none
  | token _ b => some b

end Piece

/-- The pieces of a text; the first `k` letters belong to the last token. -/
def pieces (find : List α → Option (ℕ × β)) : ℕ → List α → List (Piece α β)
  | _, [] => []
  | k + 1, _ :: s => pieces find k s
  | 0, c :: s =>
    match find (c :: s) with
    | some (n, b) => .token (c :: s.take n) b :: pieces find n s
    | none => .letter c :: pieces find 0 s

/-- A text read from left to right: a letter is one where no token begins, and behind a token the reading goes on. -/
inductive Reading (find : List α → Option (ℕ × β)) : List α → List (Piece α β) → Prop where
  | nil : Reading find [] []
  | letter {c : α} {s : List α} {ps : List (Piece α β)} (hfind : find (c :: s) = none) (hs : Reading find s ps) :
      Reading find (c :: s) (.letter c :: ps)
  | token {c : α} {t s : List α} {b : β} {ps : List (Piece α β)} (hfind : find (c :: t ++ s) = some (t.length, b))
      (hs : Reading find s ps) : Reading find (c :: t ++ s) (.token (c :: t) b :: ps)

section Pieces

variable {find : List α → Option (ℕ × β)} {s : List α} {ps : List (Piece α β)}

/-- Tokens end within the text. -/
def Within (find : List α → Option (ℕ × β)) : Prop := ∀ c s n b, find (c :: s) = some (n, b) → n ≤ s.length

theorem pieces_drop (k : ℕ) (s : List α) : pieces find k s = pieces find 0 (s.drop k) := by
  induction s generalizing k with
  | nil => cases k <;> rfl
  | cons c s ih =>
    cases k with
    | zero => rfl
    | succ k => exact ih k

theorem pieces_cons_some {c : α} {n : ℕ} {b : β} (h : find (c :: s) = some (n, b)) :
    pieces find 0 (c :: s) = .token (c :: s.take n) b :: pieces find 0 (s.drop n) := by
  rw [pieces, h, ← pieces_drop]

theorem pieces_cons_none {c : α} (h : find (c :: s) = none) :
    pieces find 0 (c :: s) = .letter c :: pieces find 0 s := by
  rw [pieces, h]

/-- There is one way to read a text. -/
theorem reading_iff (hwithin : Within find) : Reading find s ps ↔ ps = pieces find 0 s := by
  constructor
  · intro h
    induction h with
    | nil => rfl
    | letter hfind hs ih => rw [pieces_cons_none hfind, ih]
    | @token c t s b ps hfind hs ih =>
      have hfind : find (c :: (t ++ s)) = some (t.length, b) := hfind
      rw [ih, List.cons_append, pieces_cons_some hfind, List.take_left, List.drop_left]
  · rintro rfl
    induction hlen : s.length using Nat.strong_induction_on generalizing s with
    | _ len ih =>
      cases s with
      | nil => exact .nil
      | cons c s =>
        subst hlen
        cases hfind : find (c :: s) with
        | none =>
          rw [pieces_cons_none hfind]
          exact .letter hfind (ih _ (Nat.lt_succ_self _) rfl)
        | some e =>
          obtain ⟨n, b⟩ := e
          have hn := hwithin c s n b hfind
          have hsplit : c :: s.take n ++ s.drop n = c :: s := by rw [List.cons_append, List.take_append_drop]
          rw [pieces_cons_some hfind]
          nth_rewrite 1 [← hsplit]
          refine .token ?_ (ih _ ?_ rfl)
          · rw [hsplit, hfind, List.length_take, Nat.min_eq_left hn]
          · rw [List.length_drop, List.length_cons]
            omega

end Pieces

end Rewrite
