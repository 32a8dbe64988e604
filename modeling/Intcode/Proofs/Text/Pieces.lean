import Intcode.Text.Blank
import Mathlib.Data.List.Forall2

/-!
# Pieces of a text

A text is read piece by piece: it is cut at its separators, and each piece is stripped of the
characters at its ends that do not count. This file says what that means without saying how it is
done. `Cuts` relates a text to the pieces between its separators, `Pads` a text to one with
something added at its ends, and `Strips` a text to what is left if nothing more can be taken away.

Results:
* `trim_eq_iff`: trimming is stripping, and the only way to do it.
* `cuts_iff`: splitting is cutting, and the only way to do it.
* `map_trim_of_pads`: what is added to pieces at their ends is stripped again.
* `map_trim_splitOn_trim`: stripping a text before it is cut changes none of the stripped pieces.
* `takeWhile_append_eq`, `span_append_cons`, `append_inj_of_stop`: the front of a text is found by
  where it stops.
-/

namespace Intcode.Text

variable {p : Char → Bool} {separator : Char} {cs : List Char}

/-! ## Stripping -/

/-- The second text is the first, with characters that satisfy `p` added at its ends. -/
inductive Pads (p : Char → Bool) (cs : List Char) : List Char → Prop where
  | intro (front back : List Char) (hfront : ∀ c ∈ front, p c = true)
      (hback : ∀ c ∈ back, p c = true) : Pads p cs (front ++ cs ++ back)

/-- **The second text is the first, stripped at its ends** of all characters that satisfy `p`. -/
structure Strips (p : Char → Bool) (cs token : List Char) : Prop where
  pads : Pads p token cs
  head : ∀ c ∈ token.head?, p c = false
  last : ∀ c ∈ token.getLast?, p c = false

theorem Pads.refl (p : Char → Bool) (cs : List Char) : Pads p cs cs := by
  have h : Pads p cs ([] ++ cs ++ []) := .intro [] [] (by simp) (by simp)
  rwa [List.nil_append, List.append_nil] at h

/-- Nothing is taken away in front of a character that stays. -/
theorem dropWhile_eq_self (h : ∀ c ∈ cs.head?, p c = false) : cs.dropWhile p = cs := by
  cases cs with
  | nil => rfl
  | cons c cs => simp [h c rfl]

/-- The front of a text ends at the first character that does not belong. -/
theorem takeWhile_append_eq {rest : List Char} (h : ∀ c ∈ cs, p c = true)
    (hrest : ∀ c ∈ rest.head?, p c = false) : (cs ++ rest).takeWhile p = cs := by
  have hstop : rest.takeWhile p = [] := by
    cases rest with
    | nil => rfl
    | cons c rest => simp [hrest c rfl]
  rw [List.takeWhile_append_of_pos h, hstop, List.append_nil]

/-- What is left starts there. -/
theorem dropWhile_append_eq {rest : List Char} (h : ∀ c ∈ cs, p c = true)
    (hrest : ∀ c ∈ rest.head?, p c = false) : (cs ++ rest).dropWhile p = rest := by
  rw [List.dropWhile_append_of_pos h, dropWhile_eq_self hrest]

/-- A text up to its first separator, and the rest from there. -/
theorem span_append_cons {separator : Char} (h : separator ∉ cs) (rest : List Char) :
    (cs ++ separator :: rest).takeWhile (· ≠ separator) = cs ∧
      (cs ++ separator :: rest).dropWhile (· ≠ separator) = separator :: rest := by
  have hfront : ∀ c ∈ cs, decide (c ≠ separator) = true :=
    fun c hc => decide_eq_true (ne_of_mem_of_not_mem hc h)
  exact ⟨takeWhile_append_eq hfront (by simp), dropWhile_append_eq hfront (by simp)⟩

/-- Two texts are told apart by their fronts if both fronts stop where they do not belong. -/
theorem append_inj_of_stop {front front' rest rest' : List Char}
    (hfront : ∀ c ∈ front, p c = true) (hfront' : ∀ c ∈ front', p c = true)
    (hrest : ∀ c ∈ rest.head?, p c = false) (hrest' : ∀ c ∈ rest'.head?, p c = false)
    (h : front ++ rest = front' ++ rest') : front = front' ∧ rest = rest' := by
  have htake : front = front' := by
    rw [← takeWhile_append_eq hfront hrest, h, takeWhile_append_eq hfront' hrest']
  subst htake
  exact ⟨rfl, List.append_cancel_left h⟩

theorem trim_of_forall (h : ∀ c ∈ cs, p c = true) : trim p cs = [] := by
  have hnil : cs.dropWhile p = [] := by
    rw [← List.append_nil cs, List.dropWhile_append_of_pos h, List.dropWhile_nil]
  rw [trim, hnil]
  rfl

/-- **Stripping determines the result**, and trimming gives it. -/
theorem Strips.trim_eq {token : List Char} (h : Strips p cs token) : trim p cs = token := by
  obtain ⟨front, back, hfront, hback⟩ := h.pads
  by_cases hnil : token = []
  · subst hnil
    refine trim_of_forall fun c hc => ?_
    rw [List.append_nil, List.mem_append] at hc
    exact hc.elim (hfront c) (hback c)
  · have hhead : ∀ c ∈ (token ++ back).head?, p c = false := by
      rw [List.head?_append_of_ne_nil token hnil]
      exact h.head
    have hlast : ∀ c ∈ token.reverse.head?, p c = false := by
      rw [List.head?_reverse]
      exact h.last
    have hback' : ∀ c ∈ back.reverse, p c = true := fun c hc => hback c (List.mem_reverse.mp hc)
    rw [trim, List.append_assoc, List.dropWhile_append_of_pos hfront, dropWhile_eq_self hhead,
      List.reverse_append, List.dropWhile_append_of_pos hback', dropWhile_eq_self hlast,
      List.reverse_reverse]

/-- What `dropWhile` takes away, and where it stops. -/
theorem exists_dropWhile (p : Char → Bool) (cs : List Char) :
    ∃ front, (∀ c ∈ front, p c = true) ∧ cs = front ++ cs.dropWhile p ∧
      ∀ c ∈ (cs.dropWhile p).head?, p c = false := by
  refine ⟨cs.takeWhile p, List.all_eq_true.mp List.all_takeWhile,
    List.takeWhile_append_dropWhile.symm, fun c hc => ?_⟩
  have hstop := List.head?_dropWhile_not p cs
  rw [Option.mem_def.mp hc] at hstop
  exact hstop

theorem strips_trim (p : Char → Bool) (cs : List Char) : Strips p cs (trim p cs) := by
  obtain ⟨front, hfront, hcs, hhead⟩ := exists_dropWhile p cs
  obtain ⟨back, hback, hrest, hlast⟩ := exists_dropWhile p (cs.dropWhile p).reverse
  have hmiddle : cs.dropWhile p = trim p cs ++ back.reverse := by
    rw [trim, ← List.reverse_append, ← hrest, List.reverse_reverse]
  refine ⟨?_, fun c hc => hhead c ?_, fun c hc => hlast c ?_⟩
  · have hpads : Pads p (trim p cs) (front ++ trim p cs ++ back.reverse) :=
      .intro front back.reverse hfront fun c hc => hback c (List.mem_reverse.mp hc)
    rwa [List.append_assoc, ← hmiddle, ← hcs] at hpads
  · rw [hmiddle, List.head?_append, Option.mem_def.mp hc]
    rfl
  · rwa [trim, List.getLast?_reverse] at hc

/-- **Trimming is stripping**, and the only way to do it. -/
theorem trim_eq_iff {token : List Char} : trim p cs = token ↔ Strips p cs token := by
  constructor
  · rintro rfl
    exact strips_trim p cs
  · exact Strips.trim_eq

/-- What is added at the ends is trimmed. -/
theorem Pads.trim_eq {padded : List Char} (h : Pads p cs padded) :
    trim p padded = trim p cs := by
  obtain ⟨hpads, hhead, hlast⟩ := strips_trim p cs
  refine Strips.trim_eq ⟨?_, hhead, hlast⟩
  obtain ⟨front, back, hfront, hback⟩ := h
  generalize trim p cs = token at hpads
  obtain ⟨front', back', hfront', hback'⟩ := hpads
  have hboth : Pads p token ((front ++ front') ++ token ++ (back' ++ back)) := by
    refine .intro _ _ (fun c hc => ?_) fun c hc => ?_
    · exact (List.mem_append.mp hc).elim (hfront c) (hfront' c)
    · exact (List.mem_append.mp hc).elim (hback' c) (hback c)
  simpa only [List.append_assoc] using hboth

/-! ## Cutting -/

/-- **The pieces of a text between its separators**: none has a separator in it, and joined by
separators they are the text. -/
structure Cuts (separator : Char) (cs : List Char) (pieces : List (List Char)) : Prop where
  ne_nil : pieces ≠ []
  not_mem : ∀ piece ∈ pieces, separator ∉ piece
  join_eq : [separator].intercalate pieces = cs

theorem not_mem_of_mem_splitOn (separator : Char) (cs : List Char) :
    ∀ piece ∈ cs.splitOn separator, separator ∉ piece := by
  induction cs with
  | nil => simp
  | cons c cs ih =>
    rw [List.splitOn_cons_eq_if_modifyHead]
    by_cases hc : c = separator
    · simpa [hc] using ih
    · obtain ⟨first, rest, hsplit⟩ := List.exists_cons_of_ne_nil (List.splitOn_ne_nil separator cs)
      rw [hsplit] at ih ⊢
      simp only [List.mem_cons, forall_eq_or_imp] at ih
      simpa [hc, Ne.symm hc] using ih

/-- **Splitting is cutting**, and the only way to do it. -/
theorem cuts_iff {pieces : List (List Char)} :
    Cuts separator cs pieces ↔ pieces = cs.splitOn separator := by
  constructor
  · rintro ⟨hne, hnot, rfl⟩
    exact (List.splitOn_intercalate separator hnot hne).symm
  · rintro rfl
    exact ⟨List.splitOn_ne_nil separator cs, not_mem_of_mem_splitOn separator cs,
      List.intercalate_splitOn separator⟩

/-- What is in none of the pieces is not in the text, unless it is the separator. -/
theorem not_mem_intercalate {c : Char} {pieces : List (List Char)} (hseparator : c ≠ separator)
    (h : ∀ piece ∈ pieces, c ∉ piece) : c ∉ [separator].intercalate pieces := by
  induction pieces with
  | nil => simp
  | cons piece rest ih =>
    obtain ⟨hpiece, hrest⟩ := List.forall_mem_cons.mp h
    by_cases hnil : rest = []
    · subst hnil
      simpa using hpiece
    · rw [List.intercalate_cons_of_ne_nil hnil]
      simp [hpiece, hseparator, ih hrest]

/-! ## Adding at the ends of pieces -/

section
variable {pieces padded : List (List Char)}

/-- What is added is no separator. -/
theorem Pads.not_mem {padding : List Char} (h : Pads p cs padding)
    (hseparator : p separator = false) (hnot : separator ∉ cs) : separator ∉ padding := by
  obtain ⟨front, back, hfront, hback⟩ := h
  simp only [List.mem_append, not_or]
  refine ⟨⟨fun hmem => ?_, hnot⟩, fun hmem => ?_⟩
  · exact absurd (hfront separator hmem) (by simp [hseparator])
  · exact absurd (hback separator hmem) (by simp [hseparator])

/-- Pieces with something added are the pieces of another text. -/
theorem Cuts.pads (hcuts : Cuts separator cs pieces) (hseparator : p separator = false)
    (hpads : List.Forall₂ (Pads p) pieces padded) :
    Cuts separator ([separator].intercalate padded) padded := by
  obtain ⟨hne, hnot, -⟩ := hcuts
  refine ⟨?_, ?_, rfl⟩
  · rintro rfl
    cases hpads
    exact hne rfl
  · clear hne
    induction hpads with
    | nil => simp
    | cons hfirst _ ih =>
      rw [List.forall_mem_cons] at hnot ⊢
      exact ⟨hfirst.not_mem hseparator hnot.1, ih hnot.2⟩

/-- **Adding to the pieces of a text at their ends changes none of the stripped pieces.** -/
theorem map_trim_of_pads (hpads : List.Forall₂ (Pads p) pieces padded) :
    padded.map (trim p) = pieces.map (trim p) := by
  induction hpads with
  | nil => rfl
  | cons hfirst _ ih => rw [List.map_cons, List.map_cons, hfirst.trim_eq, ih]

/-- What is added to a text at its ends is added to its first and its last piece. -/
theorem exists_pads (separator : Char) {front back : List Char}
    (hfront : ∀ c ∈ front, p c = true) (hback : ∀ c ∈ back, p c = true) (hne : pieces ≠ []) :
    ∃ padded, List.Forall₂ (Pads p) pieces padded ∧
      [separator].intercalate padded = front ++ [separator].intercalate pieces ++ back := by
  induction pieces generalizing front with
  | nil => exact absurd rfl hne
  | cons first rest ih =>
    by_cases hrest : rest = []
    · subst hrest
      refine ⟨[front ++ first ++ back], .cons (.intro front back hfront hback) .nil, ?_⟩
      simp
    · -- the first piece takes the front, and the others share nothing but the back
      obtain ⟨padded, hpads, hjoin⟩ := @ih [] (by simp) hrest
      have hfirst : Pads p first (front ++ first ++ []) := .intro front [] hfront (by simp)
      have hpadded : padded ≠ [] := by
        rintro rfl
        cases hpads
        exact hrest rfl
      refine ⟨(front ++ first ++ []) :: padded, .cons hfirst hpads, ?_⟩
      rw [List.intercalate_cons_of_ne_nil hpadded, List.intercalate_cons_of_ne_nil hrest, hjoin]
      simp

/-- **Stripping a text before it is cut changes none of the stripped pieces.** -/
theorem map_trim_splitOn_trim (hseparator : p separator = false) (cs : List Char) :
    ((trim p cs).splitOn separator).map (trim p) = (cs.splitOn separator).map (trim p) := by
  have hcuts : Cuts separator (trim p cs) ((trim p cs).splitOn separator) := cuts_iff.mpr rfl
  obtain ⟨hpads, -, -⟩ := strips_trim p cs
  generalize trim p cs = inner at hpads hcuts
  obtain ⟨front, back, hfront, hback⟩ := hpads
  obtain ⟨padded, hpads, hjoin⟩ := exists_pads separator hfront hback hcuts.ne_nil
  have hsplit := cuts_iff.mp (hcuts.pads hseparator hpads)
  rw [hjoin, hcuts.join_eq] at hsplit
  rw [← hsplit, map_trim_of_pads hpads]

end

end Intcode.Text
