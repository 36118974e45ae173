import CommandBatch.Proofs.Token.Meaning

/-!
# Strings as they are written

Inside a string a backslash takes the next character with it, so the text between the quotes is read as pairs
and single characters from left to right (`Glyph.ofText`).  A text can stand between two quotes exactly if
neither the quote nor a backslash is one of its single characters (`Glyph.fits_ofText_iff`), and every text has
a spelling of this kind that means it (`exists_glyphs`).
-/

namespace CommandBatch.Token

open Text

/-! ### Pairs and single characters -/

namespace Glyph

/-- The text as pairs of a backslash and the character behind it, and single characters, from left to
right. -/
def ofText : List Char → List Glyph
  | '\\' :: c :: cs => .escape c :: ofText cs
  | c :: cs => .plain c :: ofText cs
  | [] => []

theorem ofText_cons {c : Char} (h : c ≠ '\\') (cs : List Char) :
    ofText (c :: cs) = .plain c :: ofText cs := by
  rw [ofText]
  rintro d ds rfl
  exact absurd rfl h

theorem flatMap_text_ofText (cs : List Char) : (ofText cs).flatMap text = cs := by
  induction cs using ofText.induct with
  | case1 c cs ih => simp [ofText, text, ih]
  | case2 c cs h ih => rw [ofText, List.flatMap_cons, ih, text, List.singleton_append]; exact h
  | case3 => rfl

/-- What fits between two quotes is every character that is no quote and every backslash that has one
behind it. -/
theorem fits_ofText_iff {quote : Char} {cs : List Char} :
    (∀ g ∈ ofText cs, g.Fits quote) ↔ plain quote ∉ ofText cs ∧ plain '\\' ∉ ofText cs := by
  constructor
  · intro h
    exact ⟨fun hmem => (h _ hmem).1 rfl, fun hmem => (h _ hmem).2 rfl⟩
  · rintro ⟨hquote, hslash⟩ g hg
    cases g with
    | plain c =>
      constructor
      · rintro rfl
        exact hquote hg
      · rintro rfl
        exact hslash hg
    | escape c => trivial

/-- One more character at the end can only be paired with a backslash that was single. -/
theorem plain_mem_ofText_concat {quote d : Char} (hslash : quote ≠ '\\') (hd : d ≠ quote)
    (cs : List Char) : plain quote ∈ ofText (cs ++ [d]) ↔ plain quote ∈ ofText cs := by
  induction cs using ofText.induct with
  | case1 c cs ih => simp [ofText, ih]
  | case2 c cs h ih =>
    cases cs with
    | nil =>
      by_cases hc : c = '\\'
      · subst hc
        simp [ofText, hslash]
      · simp [ofText, hc, hd.symm]
    | cons c' cs =>
      have hc : c ≠ '\\' := by
        rintro rfl
        exact h c' cs rfl rfl
      rw [List.cons_append, ofText_cons hc, ofText_cons hc, List.mem_cons, List.mem_cons, ih]
  | case3 => simp [ofText, hd.symm]

end Glyph

/-! ### Writing strings -/

/-- A character as it is written between two quotes. -/
def escapeChar (quote c : Char) : List Char :=
  if c = '\\' then ['\\', '\\'] else if c = quote then ['\\', quote]
  else if c = '\n' then ['\\', 'n'] else if c = '\t' then ['\\', 't'] else [c]

/-- A text as it is written between two quotes. -/
def escape (quote : Char) (cs : List Char) : List Char := cs.flatMap (escapeChar quote)

/-- What is written for a character means this character. -/
theorem exists_glyph {quote : Char} (hquote : isQuote quote = true) (c : Char) :
    ∃ g : Glyph, g.Fits quote ∧ g.text = escapeChar quote c ∧ g.meaning = c := by
  unfold escapeChar
  by_cases hslash : c = '\\'
  · subst hslash
    exact ⟨.escape '\\', trivial, rfl, rfl⟩
  by_cases hc : c = quote
  · subst hc
    refine ⟨.escape c, trivial, by simp [hslash, Glyph.text], ?_⟩
    rcases isQuote_iff.mp hquote with rfl | rfl <;> rfl
  by_cases hline : c = '\n'
  · subst hline
    exact ⟨.escape 'n', trivial, by simp [hc, Glyph.text], rfl⟩
  by_cases htab : c = '\t'
  · subst htab
    exact ⟨.escape 't', trivial, by simp [hc, Glyph.text], rfl⟩
  exact ⟨.plain c, ⟨hc, hslash⟩, by simp [hslash, hc, hline, htab, Glyph.text], rfl⟩

theorem exists_glyphs {quote : Char} (hquote : isQuote quote = true) (cs : List Char) :
    ∃ inside : List Glyph, (∀ g ∈ inside, g.Fits quote) ∧ inside.flatMap Glyph.text = escape quote cs ∧
      inside.map Glyph.meaning = cs := by
  induction cs with
  | nil => exact ⟨[], nofun, rfl, rfl⟩
  | cons c cs ih =>
    obtain ⟨inside, hfits, htext, hmeaning⟩ := ih
    obtain ⟨g, hg, htextg, hmeaningg⟩ := exists_glyph hquote c
    refine ⟨g :: inside, List.forall_mem_cons.mpr ⟨hg, hfits⟩, ?_, ?_⟩
    · rw [List.flatMap_cons, htextg, htext]
      rfl
    · rw [List.map_cons, hmeaningg, hmeaning]

end CommandBatch.Token
