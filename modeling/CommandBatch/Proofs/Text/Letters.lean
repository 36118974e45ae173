import CommandBatch.Proofs.Text.Margins
import CommandBatch.Text.Case
import Mathlib.Tactic.IntervalCases

/-!
# Texts in other letters

Two texts have the same letters if they differ at most in the case of the letters from A to Z.  What does
not tell a capital from its small letter does not tell such texts apart (`SameLetters.map_eq`).  So they
have the same form in upper case, and margins of the same length.
-/

namespace CommandBatch.Text

/-- The capitals from A to Z. -/
def asciiCapitals : List Char := "ABCDEFGHIJKLMNOPQRSTUVWXYZ".toList

/-- The texts differ at most in the case of the letters from A to Z. -/
def SameLetters (cs ds : List Char) : Prop := cs.map Char.toLower = ds.map Char.toLower

instance (cs ds : List Char) : Decidable (SameLetters cs ds) :=
  inferInstanceAs (Decidable (_ = _))

theorem toLower_cases (c : Char) : c.toLower = c ∨ c ∈ asciiCapitals := by
  by_cases hupper : c.val ≥ 'A'.val ∧ c.val ≤ 'Z'.val
  · right
    have hge : 65 ≤ c.toNat := UInt32.le_iff_toNat_le.mp hupper.1
    have hle : c.toNat ≤ 90 := UInt32.le_iff_toNat_le.mp hupper.2
    rw [← Char.ofNat_toNat c]
    generalize c.toNat = n at hge hle
    interval_cases n <;> decide
  · exact .inl (dif_neg hupper)

variable {α : Type} {f : Char → α} {cs ds : List Char}

/-- What is the same for each capital and its small letter is the same for all letters in both cases. -/
theorem apply_toLower (hf : ∀ c ∈ asciiCapitals, f c.toLower = f c) (c : Char) : f c.toLower = f c := by
  rcases toLower_cases c with h | h
  · rw [h]
  · exact hf c h

namespace SameLetters

theorem refl (cs : List Char) : SameLetters cs cs := rfl

theorem congr {f : List Char → α} (h : SameLetters cs ds)
    (hf : ∀ cs, f (cs.map Char.toLower) = f cs) : f cs = f ds := by
  rw [← hf cs, h, hf]

/-- **Texts with the same letters** are the same to everything that is the same for each capital and its
small letter. -/
theorem map_eq (h : SameLetters cs ds) (hf : ∀ c ∈ asciiCapitals, f c.toLower = f c) :
    cs.map f = ds.map f :=
  h.congr fun cs => by
    rw [List.map_map]
    exact List.map_congr_left fun c _ => apply_toLower hf c

theorem upperList_eq (h : SameLetters cs ds) : upperList cs = upperList ds := by
  have hmap := h.map_eq (f := upperChar) (by decide +kernel)
  rw [upperList, upperList, List.flatMap_def, List.flatMap_def, hmap]

theorem nil_left (h : SameLetters [] ds) : ds = [] := List.map_eq_nil_iff.mp h.symm

theorem cons_left {c : Char} (h : SameLetters (c :: cs) ds) :
    ∃ d ds', ds = d :: ds' ∧ c.toLower = d.toLower ∧ SameLetters cs ds' := by
  obtain ⟨d, ds', rfl, hd, hds⟩ := List.map_eq_cons_iff.mp h.symm
  exact ⟨d, ds', rfl, hd.symm, hds.symm⟩

theorem append {cs' ds' : List Char} (h : SameLetters cs ds) (h' : SameLetters cs' ds') :
    SameLetters (cs ++ cs') (ds ++ ds') := by
  rw [SameLetters, List.map_append, List.map_append, h, h']

theorem of_concat {c : Char} (h : SameLetters (cs ++ [c]) (ds ++ [c])) : SameLetters cs ds := by
  rw [SameLetters, List.map_append, List.map_append] at h
  exact List.append_cancel_right h

theorem trim (h : SameLetters cs ds) : SameLetters (Text.trim cs) (Text.trim ds) := by
  have hblank : isBlank ∘ Char.toLower = isBlank :=
    funext (apply_toLower (f := isBlank) (by decide +kernel))
  have hdrop (cs : List Char) :
      (cs.map Char.toLower).dropWhile isBlank = (cs.dropWhile isBlank).map Char.toLower := by
    rw [List.dropWhile_map, hblank]
  have hlower (cs : List Char) : Text.trim (cs.map Char.toLower) = (Text.trim cs).map Char.toLower := by
    rw [Text.trim, Text.trim, hdrop, trimRight, trimRight, ← List.map_reverse, hdrop, List.map_reverse]
  rw [SameLetters, ← hlower, h, hlower]

end SameLetters

end CommandBatch.Text
