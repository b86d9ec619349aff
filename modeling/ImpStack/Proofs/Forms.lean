import ImpStack.Proofs.Words

/-!
Text in parentheses. It consists of words and of forms in parentheses, one behind the other with
blanks or line breaks between them; a text spells one form only, however it is laid out
(`Mark.Spells.unique`).

A text is first read as marks, words and parentheses, which loses the layout and nothing else. That
marks determine a form is the usual argument for balanced parentheses, by induction on the form
(`Form.marks_append_inj`).
-/
namespace ImpStack

/-- A word, or forms in parentheses. -/
inductive Form where
  | word (letters : List Char)
  | group (parts : List Form)

/-- What a reader sees in a text in parentheses. -/
inductive Mark where
  | opening
  | closing
  | word (letters : List Char)

namespace Form

mutual

/-- What a reader sees of a form. -/
def marks : Form → List Mark
  | word letters => [.word letters]
  | group parts => .opening :: (marksOfAll parts ++ [.closing])
termination_by structural form => form

/-- The marks of forms one behind the other. -/
def marksOfAll : List Form → List Mark
  | [] => []
  | first :: rest => first.marks ++ marksOfAll rest
termination_by structural forms => forms

end

mutual

/-- Where marks begin with a form, they begin with no other form. -/
theorem marks_append_inj {form other : Form} {behind otherBehind : List Mark}
    (same : form.marks ++ behind = other.marks ++ otherBehind) :
    form = other ∧ behind = otherBehind := by
  cases form with
  | word letters =>
    cases other with
    | word otherLetters =>
      cases same
      exact ⟨rfl, rfl⟩
    | group otherParts => cases same
  | group parts =>
    cases other with
    | word otherLetters => cases same
    | group otherParts =>
      simp only [marks, List.cons_append, List.append_assoc, List.cons.injEq, true_and,
        List.nil_append] at same
      obtain ⟨rfl, rfl⟩ := marksOfAll_append_inj same
      exact ⟨rfl, rfl⟩

theorem marksOfAll_append_inj {forms others : List Form} {behind otherBehind : List Mark}
    (same : marksOfAll forms ++ .closing :: behind = marksOfAll others ++ .closing :: otherBehind) :
    forms = others ∧ behind = otherBehind := by
  cases forms with
  | nil =>
    cases others with
    | nil =>
      cases same
      exact ⟨rfl, rfl⟩
    | cons first rest => cases first <;> cases same
  | cons form forms =>
    cases others with
    | nil => cases form <;> cases same
    | cons other others =>
      simp only [marksOfAll, List.append_assoc] at same
      obtain ⟨rfl, later⟩ := marks_append_inj same
      obtain ⟨rfl, rfl⟩ := marksOfAll_append_inj later
      exact ⟨rfl, rfl⟩

end

theorem marksOfAll_append (forms others : List Form) :
    marksOfAll (forms ++ others) = marksOfAll forms ++ marksOfAll others := by
  induction forms with
  | nil => rfl
  | cons form forms ih => rw [List.cons_append, marksOfAll, marksOfAll, ih, List.append_assoc]

/-- A word of a text. -/
def ofText (text : String) : Form := .word text.toList

/-- Forms in parentheses behind a word. -/
def headed (head : String) (parts : List Form) : Form := .group (.ofText head :: parts)

theorem ofText_inj {text other : String} (same : ofText text = ofText other) : text = other :=
  String.toList_inj.mp (Form.word.inj same)

theorem ofText_ne_headed {text head : String} {parts : List Form} :
    ofText text ≠ headed head parts := by
  intro same
  cases same

theorem headed_inj {head otherHead : String} {parts otherParts : List Form}
    (same : headed head parts = headed otherHead otherParts) :
    head = otherHead ∧ parts = otherParts := by
  obtain ⟨heads, rests⟩ := List.cons.inj (Form.group.inj same)
  exact ⟨ofText_inj heads, rests⟩

theorem headed_one_inj {head otherHead : String} {part otherPart : Form}
    (same : headed head [part] = headed otherHead [otherPart]) : part = otherPart :=
  (List.cons.inj (headed_inj same).2).1

theorem headed_two_inj {head otherHead : String} {first second otherFirst otherSecond : Form}
    (same : headed head [first, second] = headed otherHead [otherFirst, otherSecond]) :
    first = otherFirst ∧ second = otherSecond := by
  obtain ⟨firsts, rests⟩ := List.cons.inj (headed_inj same).2
  exact ⟨firsts, (List.cons.inj rests).1⟩

end Form

namespace Mark

/-- The word that has begun, if one has. -/
def ofBegun (begun : List Char) : List Mark := if begun = [] then [] else [.word begun]

/-- The marks of a text behind the letters of a word that has begun. -/
def scan (begun : List Char) : List Char → List Mark
  | [] => ofBegun begun
  | c :: rest =>
    if isInWord c then scan (begun ++ [c]) rest
    else
      ofBegun begun ++
        ((if c = '(' then [.opening] else if c = ')' then [.closing] else []) ++ scan [] rest)

/-- No word goes on at the front of the text. -/
def Ends (text : List Char) : Prop := ∀ c ∈ text.head?, isInWord c = false

/-- Letters of a word are gathered. -/
theorem scan_letters {letters : List Char} (inside : ∀ c ∈ letters, isInWord c)
    (begun rest : List Char) : scan begun (letters ++ rest) = scan (begun ++ letters) rest := by
  induction letters generalizing begun with
  | nil => simp
  | cons c letters ih =>
    have first := inside c List.mem_cons_self
    rw [List.cons_append, scan, if_pos first, ih fun c member => inside c (by simp [member]),
      List.append_assoc, List.singleton_append]

/-- A word that has begun ends where none goes on. -/
theorem scan_of_ends {rest : List Char} (ends : Ends rest) (begun : List Char) :
    scan begun rest = ofBegun begun ++ scan [] rest := by
  cases rest with
  | nil => simp [scan, ofBegun]
  | cons c rest =>
    have outside : isInWord c = false := ends c rfl
    simp [scan, outside, ofBegun]

/-- The text is read as the forms wherever no word goes on behind it. -/
def Spells (text : List Char) (forms : List Form) : Prop :=
  ∀ rest, Ends rest → scan [] (text ++ rest) = Form.marksOfAll forms ++ scan [] rest

/-- A text that ends a word, in front of another one that does. -/
theorem Ends.append {text rest : List Char} (ends : Ends text) (endsBehind : Ends rest) :
    Ends (text ++ rest) := by
  cases text with
  | nil => exact endsBehind
  | cons c text => exact ends

/-- Blanks and line breaks. -/
def IsGap (text : List Char) : Prop := ∀ c ∈ text, c = ' ' ∨ c = '\n'

/-- Of blanks and line breaks a reader sees nothing. -/
theorem IsGap.scan_append {gap : List Char} (isGap : IsGap gap) (rest : List Char) :
    scan [] (gap ++ rest) = scan [] rest := by
  induction gap with
  | nil => rfl
  | cons c gap ih =>
    have skipped : scan [] (c :: gap ++ rest) = scan [] (gap ++ rest) := by
      obtain rfl | rfl := isGap c List.mem_cons_self <;> rfl
    rw [skipped, ih fun c member => isGap c (List.mem_cons_of_mem _ member)]

namespace Spells

variable {text other : List Char} {forms others : List Form}

theorem of_eq (same : text = other) (spells : Spells other forms) : Spells text forms :=
  same ▸ spells

theorem word {word : String} (oneWord : OneWord word) : Spells word.toList [.ofText word] := by
  intro rest ends
  rw [scan_letters oneWord.2, scan_of_ends ends, List.nil_append, ofBegun, if_neg oneWord.1]
  rfl

/-- Two texts spell their forms in a row if the second one does not go on with the last word. -/
theorem append (spells : Spells text forms) (spellsOther : Spells other others)
    (ends : Ends other) : Spells (text ++ other) (forms ++ others) := by
  intro rest endsBehind
  rw [List.append_assoc, spells _ (ends.append endsBehind), spellsOther rest endsBehind,
    Form.marksOfAll_append, List.append_assoc]

/-- Blanks in front of a text change nothing of what it spells. -/
theorem behind {gap : List Char} (isGap : IsGap gap) (spells : Spells text forms) :
    Spells (gap ++ text) forms := by
  intro rest ends
  rw [List.append_assoc, isGap.scan_append, spells rest ends]

theorem group (spells : Spells text forms) : Spells ('(' :: (text ++ [')'])) [.group forms] := by
  intro rest ends
  have closed : scan [] (text ++ (')' :: rest)) =
      Form.marksOfAll forms ++ .closing :: scan [] rest :=
    spells (')' :: rest) (by simp [Ends]; rfl)
  have opened : scan [] ('(' :: (text ++ [')']) ++ rest) =
      .opening :: scan [] (text ++ (')' :: rest)) := by simp [scan, isInWord, ofBegun]
  rw [opened, closed]
  simp [Form.marksOfAll, Form.marks]

/-- A text spells at most one form. -/
theorem unique {form otherForm : Form} (spells : Spells text [form])
    (spellsOther : Spells text [otherForm]) : form = otherForm := by
  have marks := spells [] (by simp [Ends])
  rw [spellsOther [] (by simp [Ends])] at marks
  have same : otherForm.marks ++ [] = form.marks ++ [] := by
    simpa [Form.marksOfAll, scan, ofBegun] using marks
  exact (Form.marks_append_inj same).1.symm

end Spells

/-- The forms stand one behind the other, each behind a gap. -/
structure Follow (text : List Char) (forms : List Form) : Prop where
  ends : Ends text
  spells : Spells text forms

namespace Follow

variable {text other : List Char} {form : Form} {forms : List Form}

theorem nil : Follow [] [] := ⟨by simp [Ends], fun _ _ => rfl⟩

/-- One more form in front, behind a gap of its own. -/
theorem cons {gap : List Char} (isGap : IsGap gap) (nonempty : gap ≠ [])
    (first : Spells text [form]) (following : Follow other forms) :
    Follow (gap ++ (text ++ other)) (form :: forms) := by
  refine ⟨?_, .behind isGap (first.append following.spells following.ends)⟩
  obtain ⟨c, gap, rfl⟩ := List.exists_cons_of_ne_nil nonempty
  obtain rfl | rfl := isGap c List.mem_cons_self
  · simp [Ends, isInWord]
  · simp [Ends, isInWord]

/-- Behind a blank. -/
theorem blank (first : Spells text [form]) (following : Follow other forms) :
    Follow (' ' :: (text ++ other)) (form :: forms) :=
  cons (by simp [IsGap]) (List.cons_ne_nil ' ' []) first following

/-- All behind the same gap. -/
theorem flatMap {α : Type} {items : List α} {spelling : α → List Char} {read : α → Form}
    {gap : List Char} (isGap : IsGap gap) (nonempty : gap ≠ [])
    (each : ∀ item ∈ items, Spells (spelling item) [read item]) :
    Follow (items.flatMap fun item => gap ++ spelling item) (items.map read) := by
  induction items with
  | nil => exact nil
  | cons item items ih =>
    have following := cons isGap nonempty (each item List.mem_cons_self)
      (ih fun item member => each item (List.mem_cons_of_mem _ member))
    rwa [← List.append_assoc] at following

/-- In parentheses behind a word. -/
theorem headed (following : Follow text forms) {head : String} (oneWord : OneWord head) :
    Spells ('(' :: (head.toList ++ (text ++ [')']))) [.headed head forms] := by
  have spells := ((Spells.word oneWord).append following.spells following.ends).group
  rwa [List.append_assoc] at spells

end Follow

end Mark

end ImpStack
