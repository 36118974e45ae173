import CommandBatch.Environment
import CommandBatch.Proofs.Line.CommandWord
import CommandBatch.Proofs.Text.Letters
import CommandBatch.Proofs.Token.Kinds

/-!
# Lines in other letters

Two lines are respelled if they fall into the same parts, and these are the same but for the case of
letters in the command word and in references to variables (`Respelled`).  A reference goes up to the same
character in both, since no letter ends it.  So if one line is read, the other one is read as the same
command, with arguments that are the same or refer to the same variable (`Respelled.read_cases`).
-/

namespace CommandBatch

open Text Token

/-- The values are the same, or they refer to the same variable. -/
inductive Value.SameTarget : Value → Value → Prop
  | same (v : Value) : SameTarget v v
  | reference {name name' : String} {raw raw' : Option String} (hname : normalizeName name = normalizeName name') :
      SameTarget ⟨TypeName.reference, .text name, raw⟩ ⟨TypeName.reference, .text name', raw'⟩

theorem Value.SameTarget.type_eq {v v' : Value} (h : v.SameTarget v') : v'.type = v.type := by
  cases h <;> rfl

/-- Neither the separators nor the beginning of comments tell capitals from small letters. -/
structure Marks.Caseless (m : Marks) : Prop where
  separates : ∀ c : Char, m.separates c.toLower = m.separates c
  isComment : ∀ cs : List Char, m.isComment (cs.map Char.toLower) = m.isComment cs

theorem Marks.caseless_usual : ({} : Marks).Caseless where
  separates := apply_toLower (by decide +kernel)
  isComment cs := by
    cases cs with
    | nil => rfl
    | cons c cs =>
      have hmark : ('#' == c.toLower) = ('#' == c) :=
        apply_toLower (f := fun c => '#' == c) (by decide +kernel) c
      simp [isComment, List.isPrefixOf, hmark]

/-! ### References -/

/-- A name means the same variable in any case. -/
theorem normalizeName_eq {cs ds : List Char} (h : SameLetters cs ds) :
    normalizeName (.ofList cs) = normalizeName (.ofList ds) := by
  unfold normalizeName upper
  rw [String.toList_ofList, String.toList_ofList, h.upperList_eq]

namespace Token

theorem isNameChar_toLower (c : Char) : isNameChar c.toLower = isNameChar c :=
  apply_toLower (f := isNameChar) (by decide +kernel) c

theorem isNameChar_eq {c d : Char} (h : c.toLower = d.toLower) : isNameChar c = isNameChar d := by
  rw [← isNameChar_toLower c, h, isNameChar_toLower]

/-- A character that is not part of names has one case only. -/
theorem eq_of_toLower {c d : Char} (hc : isNameChar c = false) (h : c.toLower = d.toLower) : c = d := by
  have hcapital : ∀ c ∈ asciiCapitals, isNameChar c = true := by decide +kernel
  have hself {c : Char} (hc : isNameChar c = false) : c.toLower = c :=
    (toLower_cases c).resolve_right fun hmem => by
      rw [hcapital c hmem] at hc
      cases hc
  rw [← hself hc, h, hself ((isNameChar_eq h).symm.trans hc)]

theorem isReference_eq {cs ds : List Char} (h : SameLetters cs ds) : isReference cs = isReference ds :=
  h.congr fun cs => by
    cases cs with
    | nil => rfl
    | cons c cs =>
      have hsigil : decide (c.toLower = sigil) = decide (c = sigil) :=
        apply_toLower (f := fun c => decide (c = sigil)) (by decide +kernel) c
      have hname : isNameChar ∘ Char.toLower = isNameChar := funext isNameChar_toLower
      rw [List.map_cons, isReference, isReference, hsigil, List.isEmpty_map, List.all_map, hname]

theorem ends_reference (c : Char) (s : Scratch) : reference.lexis.ends c s = .ok (!isNameChar c, s) := rfl

theorem parseReference_eq {cs : List Char} (h : isReference (trim cs) = true) :
    parseReference (.ofList cs) = ⟨TypeName.reference, .text (.ofList (trim cs)), none⟩ := by
  simp [parseReference, strip, h]

theorem isReference_of_parse {cs : List Char} (herror : (parseReference (.ofList cs)).isError = false) :
    isReference (trim cs) = true := by
  by_contra h
  simp [parseReference, strip, h, Value.refused, Value.isError] at herror

/-- What is read as a reference is read by the type of references. -/
theorem eq_reference_of_parse {type : TokenType} (htype : type ∈ defaults) {literal : String} {v : Value}
    (h : type.lexis.parse literal = .ok (.value v)) (herror : v.isError = false)
    (hv : v.type = TypeName.reference) : type = reference := by
  have hconcrete : ¬v.IsConcrete := fun hc => hc.type_not_mem (by simp [hv])
  simp only [defaults, List.mem_cons, List.not_mem_nil, or_false] at htype
  rcases htype with rfl | rfl | rfl | rfl | rfl
  · exact absurd (concrete_parseNumber (parse_number_eq_ok_iff.mp h) herror) hconcrete
  · obtain rfl : parseBool literal = v := value_inj h
    exact absurd (concrete_parseBool herror) hconcrete
  · obtain rfl : parseSymbol literal = v := value_inj h
    exact absurd (concrete_parseSymbol herror) hconcrete
  · obtain rfl : parseString literal = v := value_inj h
    exact absurd (concrete_parseString herror) hconcrete
  · rfl

end Token

namespace Line

variable {marks : Marks} {word rest : List Char} {v : Value}

/-- Where an argument ends depends on the next character behind it, and on nothing else. -/
theorem Closes.of_head {type : TokenType} {s : Scratch} {rest' : List Char}
    (h : Closes marks type s word rest) (hhead : rest'.head? = rest.head?) :
    Closes marks type s word rest' := by
  have hcons {c : Char} {cs : List Char} (hhead : rest'.head? = (c :: cs).head?) :
      ∃ cs', rest' = c :: cs' := List.head?_eq_some_iff.mp hhead
  induction h with
  | dropped hends hc =>
    obtain ⟨cs', rfl⟩ := hcons hhead
    exact .dropped hends hc
  | kept hends hc hd =>
    obtain ⟨cs', rfl⟩ := hcons hhead
    exact .kept hends hc hd
  | goesOn hends _ ih => exact .goesOn hends (ih hhead)

/-- No letter ends a reference, in any case. -/
theorem Closes.sameLetters {s : Scratch} {word' : List Char} (h : Closes marks reference s word rest)
    (hword : SameLetters word word') : Closes marks reference s word' rest := by
  induction h generalizing word' with
  | dropped hends hc =>
    rw [hword.nil_left]
    exact .dropped hends hc
  | @kept c _ s _ _ hends hc hd =>
    obtain ⟨c', cs', rfl, hlower, hnil⟩ := hword.cons_left
    have hname : isNameChar c = false := by
      rw [ends_reference] at hends
      simpa using congrArg Prod.fst (Except.ok.inj hends)
    obtain rfl := eq_of_toLower hname hlower
    rw [hnil.nil_left]
    exact .kept hends hc hd
  | goesOn hends _ ih =>
    obtain ⟨c', cs', rfl, hlower, hcs⟩ := hword.cons_left
    rw [ends_reference, isNameChar_eq hlower, ← ends_reference] at hends
    exact .goesOn hends (ih hcs)

/-- The next character behind an argument settles where it ends. -/
theorem IsArgument.of_head {types : List TokenType} {rest' : List Char}
    (h : IsArgument types marks word rest v) (hhead : rest'.head? = rest.head?) :
    IsArgument types marks word rest' v := by
  obtain ⟨c, cs, type, scratch, u, hword, hc, hclaims, hcloses, hparse⟩ := h
  exact ⟨c, cs, type, scratch, u, hword, hc, hclaims, hcloses.of_head hhead, hparse⟩

/-- **A reference in other letters** is an argument that refers to the same variable. -/
theorem IsArgument.sameLetters {word' : List Char} (h : IsArgument defaults marks word rest v)
    (hv : v.type = TypeName.reference) (hword : SameLetters word word') :
    ∃ v', IsArgument defaults marks word' rest v' ∧ v.SameTarget v' := by
  obtain ⟨c, cs, type, scratch, u, rfl, hc, hclaims, hcloses, hparse, herror, rfl⟩ := h
  obtain rfl := eq_reference_of_parse hclaims.mem hparse herror hv
  have hsigil : c = sigil := by
    have hbegins : Except.ok (decide (c = sigil), {}) = .ok (true, scratch) := hclaims.begins
    simpa using congrArg Prod.fst (Except.ok.inj hbegins)
  obtain ⟨c', cs', rfl, hlower, hcs⟩ := hword.cons_left
  obtain rfl := eq_of_toLower (hsigil ▸ rfl) hlower
  obtain rfl : parseReference (.ofList (c :: cs)) = u := value_inj hparse
  have hname := isReference_of_parse herror
  have hname' : isReference (Text.trim (c :: cs')) = true := by rw [← isReference_eq hword.trim, hname]
  have hparse' : parseReference (.ofList (c :: cs')) = _ := parseReference_eq hname'
  refine ⟨_, ⟨c, cs', reference, scratch, _, rfl, hc, hclaims, hcloses.sameLetters hcs, rfl, ?_, rfl⟩, ?_⟩
  · rw [hparse']
    rfl
  · rw [parseReference_eq hname, hparse']
    exact .reference (normalizeName_eq hword.trim)

/-! ### Arguments -/

/-- The second pieces are the first, but for the case of letters in those that hold references. -/
inductive SamePieces : List Piece → List Value → List Piece → Prop
  | none : SamePieces [] [] []
  | same {p : Piece} {v : Value} {pieces pieces' : List Piece} {vs : List Value}
      (h : SamePieces pieces vs pieces') : SamePieces (p :: pieces) (v :: vs) (p :: pieces')
  | reference {gap word word' : List Char} {v : Value} {pieces pieces' : List Piece} {vs : List Value}
      (hv : v.type = TypeName.reference) (hword : SameLetters word word')
      (h : SamePieces pieces vs pieces') :
      SamePieces (⟨gap, word⟩ :: pieces) (v :: vs) (⟨gap, word'⟩ :: pieces')

variable {pieces pieces' : List Piece} {tail : List Char} {vs : List Value}

/-- Such pieces begin alike, since there is a gap in front of the first. -/
theorem SamePieces.head? {types : List TokenType} (h : SamePieces pieces vs pieces')
    (harguments : Arguments types marks pieces tail vs) :
    (joined pieces' tail).head? = (joined pieces tail).head? := by
  cases h with
  | none => rfl
  | same | reference =>
    cases harguments with
    | next hgap =>
      simp only [joined, List.append_assoc]
      rw [List.head?_append_of_ne_nil _ hgap, List.head?_append_of_ne_nil _ hgap]

/-- **Arguments in other letters** are the same, or refer to the same variables. -/
theorem Arguments.samePieces (h : Arguments defaults marks pieces tail vs)
    (hpieces : SamePieces pieces vs pieces') :
    ∃ vs', Arguments defaults marks pieces' tail vs' ∧ List.Forall₂ Value.SameTarget vs vs' := by
  induction hpieces with
  | none => exact ⟨[], h, .nil⟩
  | @same p v _ _ _ hpieces ih =>
    cases h with
    | next hgap hseparates hargument hrest =>
      obtain ⟨vs', harguments, hsame⟩ := ih hrest
      exact ⟨v :: vs', .next hgap hseparates (hargument.of_head (hpieces.head? hrest)) harguments,
        .cons (.same v) hsame⟩
  | reference hv hword hpieces ih =>
    cases h with
    | next hgap hseparates hargument hrest =>
      obtain ⟨vs', harguments, hsame⟩ := ih hrest
      obtain ⟨v', hargument', htarget⟩ := hargument.sameLetters hv hword
      exact ⟨v' :: vs', .next hgap hseparates (hargument'.of_head (hpieces.head? hrest)) harguments,
        .cons htarget hsame⟩

/-! ### Lines -/

/-- The second split is the first, but for the case of letters in the command word and in references, and
the command word is still one. -/
structure Split.Respells (marks : Marks) (args : List Value) (s s' : Split) : Prop where
  margin : s'.margin = s.margin
  word : SameLetters s.word s'.word
  whole : ∀ c ∈ s'.word, marks.separates c = false
  pieces : SamePieces s.pieces args s'.pieces
  tail : s'.tail = s.tail

/-- The lines are the same, or the first can be read, and the second differs from it in nothing but the case
of letters in the command word and in references.  It is then no comment either. -/
inductive Respelled (marks : Marks) : String → String → Prop
  | same (text : String) : Respelled marks text text
  | letters {x y : String} {line : Line} {separator : Char} {separators : List Char} {s s' : Split}
      (hread : read defaults marks x = .ok line) (hseparators : marks.separators = separator :: separators)
      (hsplit : Split.Of defaults marks ((strip x).toList ++ [separator]) line s)
      (hrespells : s.Respells marks line.args s') (htext : s'.text = (strip y).toList ++ [separator])
      (hcomment : marks.isComment (strip y).toList = false) : Respelled marks x y

/-- A line that has a split is read as it is split, unless it is a comment. -/
theorem Split.Of.read {types : List TokenType} {text : String} {line : Line} {separator : Char}
    {separators : List Char} {s : Split} (h : Split.Of types marks ((strip text).toList ++ [separator]) line s)
    (hseparators : marks.separators = separator :: separators)
    (hcomment : marks.isComment (strip text).toList = false) : Line.read types marks text = .ok line := by
  rw [toList_strip] at h hcomment
  have hseparator : marks.separates separator = true := by simp [Marks.separates, hseparators]
  have hmem : separator ∉ s.word := fun hmem => by
    rw [h.word separator hmem] at hseparator
    cases hseparator
  have hwhole : trim text.toList ++ [separator] = s.margin ++ s.word ++ joined s.pieces s.tail := h.whole.symm
  have hne : trim text.toList ≠ [] := by
    intro hnil
    obtain ⟨c, cs, hword⟩ := List.exists_cons_of_ne_nil h.nonempty
    have hc : c ∈ trim text.toList ++ [separator] := by simp [hwhole, hword]
    rw [hnil, List.nil_append, List.mem_singleton] at hc
    exact hmem (by simp [hword, hc])
  have hseparated : marks.Separated (joined s.pieces s.tail) := by
    refine h.args.joined_cases.resolve_left fun hnil => hmem ?_
    rw [hnil, List.append_nil] at hwhole
    have hlast := congrArg List.getLast? hwhole
    rw [List.getLast?_concat, List.getLast?_append_of_ne_nil _ h.nonempty] at hlast
    exact List.mem_of_getLast? hlast.symm
  rw [read_eq_readText hne hcomment, readText_eq hseparators hwhole h.margin h.word h.nonempty hseparated,
    readArguments_joined h.args, Except.map, ← h.command]

/-- **A line in other letters** is read as the same command, with arguments that are the same or refer to
the same variables. -/
theorem Respelled.read_cases {x y : String} (h : Respelled marks x y) :
    x = y ∨ ∃ line args, read defaults marks x = .ok line ∧
      read defaults marks y = .ok ⟨line.command, args⟩ ∧ List.Forall₂ Value.SameTarget line.args args := by
  cases h with
  | same => exact .inl rfl
  | @letters _ line separator separators s s' hread hseparators hsplit hrespells htext hcomment =>
    obtain ⟨args, harguments, hsame⟩ := hsplit.args.samePieces hrespells.pieces
    have hword : s'.word ≠ [] := fun hnil => hsplit.nonempty (by
      simpa [SameLetters, hnil] using hrespells.word)
    have hsplit' : Split.Of defaults marks ((strip _).toList ++ [separator]) ⟨line.command, args⟩ s' :=
      { whole := htext
        margin := hrespells.margin ▸ hsplit.margin
        nonempty := hword
        word := hrespells.whole
        command := by rw [hsplit.command, hrespells.word.upperList_eq]
        args := hrespells.tail ▸ harguments }
    exact .inr ⟨line, args, hread, hsplit'.read hseparators hcomment, hsame⟩

/-! ### Marks without letters -/

theorem SamePieces.sameLetters (h : SamePieces pieces vs pieces') (tail : List Char) :
    SameLetters (joined pieces tail) (joined pieces' tail) := by
  induction h with
  | none => exact .refl tail
  | same _ ih => exact (SameLetters.refl _).append ih
  | reference _ hword _ ih => exact ((SameLetters.refl _).append hword).append ih

/-- A line with a command is no comment. -/
theorem Split.Of.isComment_eq {text : String} {line : Line} {cs : List Char} {s : Split}
    (h : Split.Of defaults marks cs line s) (hread : Line.read defaults marks text = .ok line) :
    marks.isComment (strip text).toList = false := by
  cases hcomment : marks.isComment (strip text).toList with
  | false => rfl
  | true =>
    rw [toList_strip] at hcomment
    rw [Line.read, hcomment, Bool.or_true, if_pos rfl] at hread
    cases hread
    exact absurd (by simpa using congrArg String.toList h.command.symm) (upperList_ne_nil h.nonempty)

/-- **Where letters are no marks**, the lines need only fall into the same parts. -/
theorem Respelled.of_caseless {x y : String} {line : Line} {separator : Char} {separators : List Char}
    {s : Split} (s' : Split) (hmarks : marks.Caseless) (hread : Line.read defaults marks x = .ok line)
    (hseparators : marks.separators = separator :: separators)
    (hsplit : Split.Of defaults marks ((strip x).toList ++ [separator]) line s)
    (hmargin : s'.margin = s.margin) (hword : SameLetters s.word s'.word)
    (hpieces : SamePieces s.pieces line.args s'.pieces) (htail : s'.tail = s.tail)
    (htext : s'.text = (strip y).toList ++ [separator]) : Respelled marks x y := by
  have hwhole : ∀ c ∈ s'.word, marks.separates c = false := by
    have hmap : s.word.map marks.separates = s'.word.map marks.separates :=
      hword.map_eq fun c _ => hmarks.separates c
    intro c hc
    have hmem : marks.separates c ∈ s.word.map marks.separates := hmap ▸ List.mem_map_of_mem hc
    obtain ⟨d, hd, hsame⟩ := List.mem_map.mp hmem
    rw [← hsame, hsplit.word d hd]
  have hlines : SameLetters (strip x).toList (strip y).toList := by
    refine SameLetters.of_concat (c := separator) ?_
    rw [← hsplit.whole, ← htext, Split.text, Split.text, hmargin, htail]
    exact ((SameLetters.refl _).append hword).append (hpieces.sameLetters _)
  exact .letters hread hseparators hsplit ⟨hmargin, hword, hwhole, hpieces, htail⟩ htext
    ((hlines.congr hmarks.isComment).symm.trans (hsplit.isComment_eq hread))

end Line

end CommandBatch
