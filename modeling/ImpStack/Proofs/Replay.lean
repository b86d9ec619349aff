import ImpStack.Proofs.Coverage
import ImpStack.Proofs.Patterns
import ImpStack.Token.Tokenizer

/-!
The tokenizer (SPEC_FULL, section 4.1) loses nothing, whatever its scanner reports of bytes that it
does not recognise (`Tokenizer.tokens_lose_nothing`). Of the scanner only this is assumed: its
reports follow each other, what it reports as a token is a match of the pattern of that token, and
what it passes over in silence is blanks and comments (`Scan`).

The cursor may lag behind the scanner by what that has passed over, and it may be ahead of it by the
rest of a character whose first bytes only have been reported. `ScanWith.replay` carries both along,
for any relation of texts and tokens that is closed under what a scanner can report.
-/
namespace ImpStack

open String (utf8Len)

variable {source : String} {text before gap rest : List Char} {raws : List RawSpan}
  {cursor there : Cursor} {tokens : List Token} {start stop : Nat}

/-- The scanner has come to the byte `start` of `text` and reports `raws` of what is behind; `takes`
says what it may recognise and `unknown` which bytes it may fail to recognise. -/
inductive ScanWith (takes : Pattern → List Char → List Char → Prop) (unknown : Nat → Nat → Prop)
    (text : List Char) : (start : Nat) → List RawSpan → Prop
  | finish : ScanWith takes unknown text (utf8Len text) []
  | skip {before part rest : List Char} {pattern : Pattern} {raws : List RawSpan}
      (split : text = before ++ part ++ rest) (skips : pattern.kind? = none)
      (taken : takes pattern part rest)
      (following : ScanWith takes unknown text (utf8Len (before ++ part)) raws) :
      ScanWith takes unknown text (utf8Len before) raws
  | token {before part rest : List Char} {pattern : Pattern} {kind : Kind} {raws : List RawSpan}
      (split : text = before ++ part ++ rest) (declares : pattern.kind? = some kind)
      (taken : takes pattern part rest)
      (following : ScanWith takes unknown text (utf8Len (before ++ part)) raws) :
      ScanWith takes unknown text (utf8Len before)
        (⟨some kind, utf8Len before, utf8Len (before ++ part)⟩ :: raws)
  | unknown {start stop : Nat} {raws : List RawSpan} (forward : start < stop)
      (inside : stop ≤ utf8Len text) (unrecognised : unknown start stop)
      (following : ScanWith takes unknown text stop raws) :
      ScanWith takes unknown text start (⟨none, start, stop⟩ :: raws)

/-- The scanner has come to the byte `start` of `text` and reports `raws` of what is behind. -/
inductive Scan (text : List Char) : (start : Nat) → List RawSpan → Prop
  | finish : Scan text (utf8Len text) []
  | skip {before part rest : List Char} {pattern : Pattern} {raws : List RawSpan}
      (split : text = before ++ part ++ rest) (skips : pattern.kind? = none)
      (takes : pattern.Takes part rest) (following : Scan text (utf8Len (before ++ part)) raws) :
      Scan text (utf8Len before) raws
  | token {before part rest : List Char} {pattern : Pattern} {kind : Kind} {raws : List RawSpan}
      (split : text = before ++ part ++ rest) (declares : pattern.kind? = some kind)
      (takes : pattern.Takes part rest) (following : Scan text (utf8Len (before ++ part)) raws) :
      Scan text (utf8Len before) (⟨some kind, utf8Len before, utf8Len (before ++ part)⟩ :: raws)
  | unknown {start stop : Nat} {raws : List RawSpan} (forward : start < stop)
      (inside : stop ≤ utf8Len text) (following : Scan text stop raws) :
      Scan text start (⟨none, start, stop⟩ :: raws)

namespace Tokenizer

/-- Tokenizers that deliver the same next token deliver the same list. -/
theorem all_congr {first second : Tokenizer} (same : first.nextToken = second.nextToken) :
    first.all = second.all := by
  rw [all, same, ← all]

/-- Behind the last report stands the end of the input. -/
theorem all_mk_nil (source : String) (cursor : Cursor) :
    (mk source [] cursor []).all =
      [.eofAt (cursor.advanceTo source.utf8ByteSize).position] := by
  rw [all]
  simp [nextToken, resume, Token.eofAt, Token.isEof]

/-- A token is delivered with its characters, at the place where the cursor comes to it. -/
theorem all_mk_token {kind : Kind} (isEof_eq : kind ≠ .eof) :
    (mk source (⟨some kind, start, stop⟩ :: raws) cursor []).all =
      ⟨kind, String.Pos.Raw.extract source ⟨start⟩ ⟨stop⟩, (cursor.advanceTo start).position⟩ ::
        (mk source raws ((cursor.advanceTo start).advanceTo stop) []).all := by
  rw [all]
  simp [nextToken, resume, Token.isEof, isEof_eq]

/-- Tokens that wait are delivered first. -/
theorem all_mk_pending (goes : ∀ token ∈ tokens, token.isEof = false) :
    (mk source raws cursor tokens).all = tokens ++ (mk source raws cursor []).all := by
  induction tokens with
  | nil => rfl
  | cons token tokens ih =>
    have here := goes token (List.mem_cons_self ..)
    rw [all]
    simp only [nextToken, here, Bool.false_eq_true, if_false, List.cons_append]
    rw [ih fun token mem => goes token (.tail _ mem)]

/-- A report of bytes that the cursor has passed already is of no account. -/
theorem all_mk_repeated (repeated : stop ≤ cursor.offset) :
    (mk source (⟨none, start, stop⟩ :: raws) cursor []).all = (mk source raws cursor []).all :=
  all_congr (by simp [nextToken, resume, repeated])

theorem all_mk_unknown (new : ¬ stop ≤ cursor.offset)
    (read : Cursor.invalidsTo stop (cursor.advanceTo start).rest (cursor.advanceTo start).offset
      (cursor.advanceTo start).position = (tokens, there))
    (goes : ∀ token ∈ tokens, token.isEof = false) :
    (mk source (⟨none, start, stop⟩ :: raws) cursor []).all =
      tokens ++ (mk source raws there []).all := by
  cases tokens with
  | nil => exact all_congr (by simp [nextToken, resume, new, read])
  | cons token pending =>
    rw [all]
    have next : (mk source (⟨none, start, stop⟩ :: raws) cursor []).nextToken =
        (token, mk source raws there pending) := by
      simp [nextToken, resume, new, read]
    have here := goes token (List.mem_cons_self ..)
    simp only [next, here, Bool.false_eq_true, if_false]
    rw [all_mk_pending fun token mem => goes token (.tail _ mem), List.cons_append]

end Tokenizer

/-- What the scanner passes over may stand in front of a layout. -/
theorem Layout.skip {pattern : Pattern} {part : List Char} (skips : pattern.kind? = none)
    (takes : pattern.Takes part rest) (following : Layout (before ++ part) rest tokens) :
    Layout before (part ++ rest) tokens := by
  cases pattern with
  | blanks =>
    have blank := takes.is_match.2
    clear takes
    induction part generalizing before with
    | nil => simpa using following
    | cons c part ih =>
      refine .blank (blank c (List.mem_cons_self ..)) (ih ?_ fun c mem => blank c (.tail _ mem))
      simpa using following
  | comment =>
    obtain ⟨line, rfl, oneLine⟩ := takes.is_match
    exact .comment oneLine (takes.wholeLine rfl) following
  | _ => simp [Pattern.kind?] at skips

/-- A character that starts no token may stand in front of a layout. -/
theorem Layout.invalid {c : Char} (unknown : ¬ Text.isBlank c)
    (following : Layout (before ++ [c]) rest tokens) :
    Layout before (c :: rest) (⟨.invalid, String.singleton c, .behind before⟩ :: tokens) := by
  rw [String.singleton_eq_ofList]
  exact .token (List.cons_ne_nil c []) (by simp) (fun _ => ⟨c, rfl, unknown⟩) following

theorem Pattern.ne_of_kind? {pattern : Pattern} {kind : Kind}
    (declares : pattern.kind? = some kind) : kind ≠ .eof ∧ kind ≠ .invalid := by
  cases pattern <;> simp_all [Pattern.kind?] <;> subst declares <;> simp

namespace Tokenizer

/-- At the end of the reports the cursor catches up with what has been passed over. -/
theorem all_between_nil (split : source.toList = before ++ gap) :
    (mk source [] (.between before gap) []).all = [.eofAt (.behind (before ++ gap))] := by
  have reaches : Reaches source.utf8ByteSize (before ++ gap) := by
    rw [utf8ByteSize_eq, split]
    exact .whole _
  have caughtUp := @Cursor.advanceTo_of_reaches _ before gap [] reaches
  rw [List.append_nil] at caughtUp
  rw [all_mk_nil, caughtUp]
  rfl

theorem all_between_token {kind : Kind} {part : List Char} (isEof_eq : kind ≠ .eof)
    (split : source.toList = before ++ gap ++ part ++ rest) :
    (mk source (⟨some kind, utf8Len (before ++ gap), utf8Len (before ++ gap ++ part)⟩ :: raws)
        (.between before (gap ++ (part ++ rest))) []).all =
      ⟨kind, String.ofList part, .behind (before ++ gap)⟩ ::
        (mk source raws (.between (before ++ gap ++ part) rest) []).all := by
  have ends : Reaches (utf8Len (before ++ gap ++ part)) (before ++ gap ++ part) := .whole _
  rw [all_mk_token isEof_eq, extract_between split, Cursor.advanceTo_of_reaches (.whole _),
    Cursor.advanceTo_of_reaches ends]
  rfl

theorem all_between_unknown (reaches : Reaches start (before ++ gap))
    (new : ¬ stop ≤ utf8Len before)
    (read : Cursor.invalidsTo stop rest (utf8Len (before ++ gap)) (.behind (before ++ gap)) =
      (tokens, there)) (goes : ∀ token ∈ tokens, token.isEof = false) :
    (mk source (⟨none, start, stop⟩ :: raws) (.between before (gap ++ rest)) []).all =
      tokens ++ (mk source raws there []).all := by
  refine all_mk_unknown new ?_ goes
  rw [Cursor.advanceTo_of_reaches reaches]
  exact read

end Tokenizer

/-- An invalid token for each character of `part` that is no blank. -/
def Token.invalids : (before part : List Char) → List Token
  | _, [] => []
  | before, c :: part =>
    let later := invalids (before ++ [c]) part
    if Text.isBlank c then later else ⟨.invalid, String.singleton c, .behind before⟩ :: later

/-- Invalid characters are no end of the input. -/
theorem Token.isEof_of_mem_invalids {part : List Char} {token : Token}
    (member : token ∈ invalids before part) : token.isEof = false := by
  induction part generalizing before with
  | nil => cases member
  | cons c part ih =>
    unfold invalids at member
    split at member
    · exact ih member
    · rcases List.mem_cons.mp member with rfl | later
      · rfl
      · exact ih later

theorem Layout.invalids {part : List Char} (following : Layout (before ++ part) rest tokens) :
    Layout before (part ++ rest) (Token.invalids before part ++ tokens) := by
  induction part generalizing before with
  | nil => simpa [Token.invalids] using following
  | cons c part ih =>
    have layout := @ih (before ++ [c]) (by simpa using following)
    unfold Token.invalids
    split
    · next blank => exact .blank blank layout
    · next unknown => exact .invalid unknown layout

/-- The walk over bytes that the scanner does not know stops at the first end of a character behind
them, and delivers on its way all characters but the blanks. -/
theorem invalidsTo_between (stop : Nat) (before rest : List Char)
    (inside : stop ≤ utf8Len (before ++ rest))
    (shortest : ∀ {shorter c later}, before = shorter ++ c :: later → utf8Len shorter < stop) :
    ∃ part tail, rest = part ++ tail ∧ Reaches stop (before ++ part) ∧
      Cursor.invalidsTo stop rest (utf8Len before) (.behind before) =
        (Token.invalids before part, .between (before ++ part) tail) := by
  induction rest generalizing before with
  | nil =>
    refine ⟨[], [], rfl, ?_, ?_⟩
    · rw [List.append_nil] at inside ⊢
      exact ⟨inside, shortest⟩
    · simp [Cursor.invalidsTo, Cursor.between, Token.invalids]
  | cons c rest ih =>
    by_cases short : utf8Len before < stop
    · obtain ⟨part, tail, rfl, reaches, read⟩ :=
        ih (before ++ [c]) (by simpa using inside) (shortest_append_singleton short)
      have ends : before ++ [c] ++ part = before ++ c :: part := by simp
      rw [ends] at reaches read
      rw [Position.behind_append_singleton, String.utf8Len_append] at read
      refine ⟨c :: part, tail, rfl, reaches, ?_⟩
      by_cases blank : Text.isBlank c <;> simp_all [Cursor.invalidsTo, Token.invalids]
    · refine ⟨[], c :: rest, rfl, ?_, ?_⟩
      · rw [List.append_nil]
        exact ⟨Nat.le_of_not_lt short, shortest⟩
      · simp [Cursor.invalidsTo, Cursor.between, Token.invalids, short]

/-- Whatever the scanner reports, the tokens are in the relation `reads` to the text, if that is
closed under what the scanner does. What the scanner has passed over and the cursor has not (`gap`)
is carried along. -/
theorem ScanWith.replay {takes : Pattern → List Char → List Char → Prop}
    {unknown : Nat → Nat → Prop} {reads : List Char → List Char → List Token → Prop}
    (finished : ∀ before, reads before [] [.eofAt (.behind before)])
    (skipped : ∀ {before part rest pattern tokens}, Pattern.kind? pattern = none →
      takes pattern part rest → reads (before ++ part) rest tokens →
      reads before (part ++ rest) tokens)
    (delivered : ∀ {before part rest pattern kind tokens}, Pattern.kind? pattern = some kind →
      takes pattern part rest → reads (before ++ part) rest tokens →
      reads before (part ++ rest) (⟨kind, String.ofList part, .behind before⟩ :: tokens))
    (refused : ∀ {start stop before part rest tokens}, unknown start stop →
      source.toList = before ++ part ++ rest → start ≤ utf8Len before →
      Reaches stop (before ++ part) → reads (before ++ part) rest tokens →
      reads before (part ++ rest) (Token.invalids before part ++ tokens))
    (scan : ScanWith takes unknown source.toList start raws)
    (split : source.toList = before ++ gap ++ rest) (reaches : Reaches start (before ++ gap))
    (passed : ∀ later, reads (before ++ gap) rest later → reads before (gap ++ rest) later) :
    reads before (gap ++ rest)
      (Tokenizer.mk source raws (.between before (gap ++ rest)) []).all := by
  induction scan generalizing before gap rest with
  | finish =>
    have whole : source.toList ++ [] = before ++ gap ++ rest := by rw [List.append_nil, split]
    obtain ⟨same, rfl⟩ := (Reaches.whole _).unique reaches whole
    rw [List.append_nil] at split passed ⊢
    rw [Tokenizer.all_between_nil split]
    exact passed _ (finished _)
  | @skip behind part ahead pattern raws splitHere skips taken following ih =>
    rw [splitHere, List.append_assoc] at split
    obtain ⟨same, rfl⟩ := (Reaches.whole behind).unique reaches split
    rw [same] at splitHere
    have read := @ih before (gap ++ part) ahead
      (by rw [splitHere]; simp) (by rw [same, ← List.append_assoc]; exact Reaches.whole _) ?_
    · simpa using read
    · intro later read
      rw [List.append_assoc]
      exact passed _ (skipped skips taken (by simpa using read))
  | @token behind part ahead pattern kind raws splitHere declares taken following ih =>
    rw [splitHere, List.append_assoc] at split
    obtain ⟨rfl, rfl⟩ := (Reaches.whole behind).unique reaches split
    rw [Tokenizer.all_between_token (Pattern.ne_of_kind? declares).1 splitHere]
    have ends : Reaches (utf8Len (before ++ gap ++ part)) (before ++ gap ++ part) := .whole _
    have read := @ih (before ++ gap ++ part) [] ahead (by simpa using splitHere)
      (by simpa using ends) (by simp)
    exact passed _ (delivered declares taken read)
  | @unknown start stop raws forward inside unrecognised following ih =>
    by_cases repeated : stop ≤ utf8Len before
    -- The bytes are a part of a character that has been delivered whole.
    · rw [Tokenizer.all_mk_repeated repeated]
      refine ih split (reaches.later (Nat.le_of_lt forward) ?_) passed
      rw [String.utf8Len_append]
      exact Nat.le_add_right_of_le repeated
    · obtain ⟨part, tail, rfl, further, read⟩ :=
        invalidsTo_between stop (before ++ gap) rest
          (by rw [← split]; exact inside)
          fun split => Nat.lt_trans (reaches.shortest split) forward
      rw [Tokenizer.all_between_unknown reaches repeated read
        fun token member => Token.isEof_of_mem_invalids member]
      have splitHere : source.toList = before ++ gap ++ part ++ tail := by simpa using split
      refine passed _ (refused unrecognised splitHere reaches.enough further ?_)
      exact @ih (before ++ gap ++ part) [] tail (by simpa using split) (by simpa using further)
        (by simp)

/-- A scanner that may fail to recognise any bytes. -/
theorem Scan.toScanWith (scan : Scan text start raws) :
    ScanWith Pattern.Takes (fun _ _ => True) text start raws := by
  induction scan with
  | finish => exact .finish
  | skip split skips takes _ ih => exact .skip split skips takes ih
  | token split declares takes _ ih => exact .token split declares takes ih
  | unknown forward inside _ ih => exact .unknown forward inside trivial ih

/-- Whatever the scanner reports, the tokens lay out the text. -/
theorem Scan.layout (scan : Scan source.toList start raws)
    (split : source.toList = before ++ gap ++ rest) (reaches : Reaches start (before ++ gap))
    (passed : ∀ later, Layout (before ++ gap) rest later → Layout before (gap ++ rest) later) :
    Layout before (gap ++ rest)
      (Tokenizer.mk source raws (.between before (gap ++ rest)) []).all := by
  refine scan.toScanWith.replay .finish Layout.skip ?_ ?_ split reaches passed
  · intro before part rest pattern kind tokens declares takes following
    have known := Pattern.ne_of_kind? declares
    exact .token takes.is_match.ne_nil known.1 (fun same => absurd same known.2) following
  · intro start stop before part rest tokens _ _ _ _ following
    exact following.invalids

/-- Characters that belong to a piece are passed over. -/
theorem Token.listFrom_skip (part rest : List Char) (position : Position) :
    listFrom part.length position (part ++ rest) =
      listFrom 0 (part.foldl .after position) rest := by
  induction part generalizing position with
  | nil => rfl
  | cons c part ih => simpa [listFrom] using ih (position.after c)

/-- The tokens of a text, piece by piece. -/
theorem Token.listFrom_front {part : List Char} {kind? : Option Kind} {position : Position}
    (nonempty : part ≠ []) (front : Piece.front (part ++ rest) = ⟨kind?, part.length⟩) :
    listFrom 0 position (part ++ rest) =
      (kind?.map fun kind => ⟨kind, String.ofList part, position⟩).toList ++
        listFrom 0 (part.foldl .after position) rest := by
  cases part with
  | nil => contradiction
  | cons c part =>
    simp only [List.cons_append] at front ⊢
    rw [listFrom]
    simp only [front, List.length_cons, Nat.add_sub_cancel, listFrom_skip, List.foldl_cons]
    cases kind? with
    | none => rfl
    | some kind => simp

theorem Piece.exists_part (c : Char) (rest : List Char) :
    ∃ part behind, c :: rest = part ++ behind ∧ part ≠ [] ∧
      (Piece.front (c :: rest)).length = part.length := by
  unfold Piece.front
  split
  · next best =>
    obtain ⟨rfl, part, behind, text_eq, takes, length_eq⟩ := Pattern.finds_of_longestMatch best
    exact ⟨part, behind, text_eq, takes.is_match.ne_nil, length_eq.symm⟩
  · exact ⟨[c], rest, rfl, List.cons_ne_nil _ _, rfl⟩

theorem Piece.kind?_ne_eof {text : List Char} {kind : Kind}
    (front : (Piece.front text).kind? = some kind) : kind ≠ .eof := by
  unfold Piece.front at front
  split at front
  · exact (Pattern.ne_of_kind? front).1
  · obtain rfl := Option.some.inj front
    simp

/-- The end of the input stands behind all tokens and nowhere else. -/
theorem Token.exists_listFrom_eq (skip : Nat) (position : Position) (text : List Char) :
    ∃ body finish, listFrom skip position text = body ++ [eofAt finish] ∧
      ∀ token ∈ body, token.kind ≠ .eof := by
  induction text generalizing skip position with
  | nil => exact ⟨[], position, by cases skip <;> rfl, by simp⟩
  | cons c rest ih =>
    cases skip with
    | succ skip => exact ih skip (position.after c)
    | zero =>
      obtain ⟨body, finish, following, inside⟩ :=
        ih ((Piece.front (c :: rest)).length - 1) (position.after c)
      unfold listFrom
      dsimp only
      split
      · exact ⟨body, finish, following, inside⟩
      · next kind front =>
        rw [following]
        refine ⟨_ :: body, finish, rfl, List.forall_mem_cons.mpr ⟨?_, inside⟩⟩
        exact Piece.kind?_ne_eof front

theorem invalidsTo_singleton {c : Char} (unknown : ¬ Text.isBlank c) (before rest : List Char) :
    Cursor.invalidsTo (utf8Len (before ++ [c])) (c :: rest) (utf8Len before) (.behind before) =
      ([⟨.invalid, String.singleton c, .behind before⟩], .between (before ++ [c]) rest) := by
  have short := c.utf8Size_pos
  rw [Cursor.between_append_singleton]
  cases rest <;> simp [Cursor.invalidsTo, short, unknown]

/-- The scanner that the list of tokens has built in: what it finds at the front of a text it
reports or passes over, and a character that starts no token it reports as unknown. -/
theorem exists_scan_from (source : String) (before rest : List Char)
    (split : source.toList = before ++ rest) :
    ∃ raws, Scan source.toList (utf8Len before) raws ∧
      ∀ behind gap, behind ++ gap = before →
        (Tokenizer.mk source raws (.between behind (gap ++ rest)) []).all =
          Token.listFrom 0 (.behind before) rest := by
  match rest, split with
  | [], split =>
    rw [List.append_nil] at split
    refine ⟨[], split ▸ .finish, ?_⟩
    rintro behind gap rfl
    rw [List.append_nil, Tokenizer.all_between_nil split]
    rfl
  | c :: rest, split =>
    cases best : Pattern.longestMatch (c :: rest) with
    | none =>
      have unknown : ¬ Text.isBlank c := by simp [Pattern.not_isBlank_of_none best]
      have text_eq : c :: rest = [c] ++ rest := rfl
      have front : Piece.front ([c] ++ rest) = ⟨some .invalid, [c].length⟩ := by
        simp [Piece.front, best]
      rw [text_eq] at split ⊢
      rw [Token.listFrom_front (List.cons_ne_nil c []) front, Position.foldl_after]
      obtain ⟨raws, scan, same⟩ := exists_scan_from source (before ++ [c]) rest (by simp [split])
      refine ⟨⟨none, utf8Len before, utf8Len (before ++ [c])⟩ :: raws, .unknown ?_ ?_ scan, ?_⟩
      · simp [c.utf8Size_pos]
      · simp [split]
      · rintro behind gap rfl
        -- the report goes beyond the cursor, which has not passed the gap yet
        have new : ¬ utf8Len (behind ++ gap ++ [c]) ≤ utf8Len behind := by
          have := c.utf8Size_pos
          simp
          omega
        have read := invalidsTo_singleton unknown (behind ++ gap) rest
        have following := same (behind ++ gap ++ [c]) [] (by simp)
        rw [List.nil_append] at following
        rw [List.singleton_append,
          Tokenizer.all_between_unknown (.whole _) new read (by simp [Token.isEof]), following]
        rw [String.singleton_eq_ofList]
        rfl
    | some found =>
      obtain ⟨pattern, length⟩ := found
      obtain ⟨rfl, part, ahead, text_eq, takes, length_eq⟩ := Pattern.finds_of_longestMatch best
      have nonempty := takes.is_match.ne_nil
      have shorter : ahead.length ≤ rest.length := by
        have lengths := congrArg List.length text_eq
        have := List.length_pos_of_ne_nil nonempty
        simp only [List.length_append, List.length_cons] at lengths
        omega
      have front : Piece.front (part ++ ahead) = ⟨pattern.kind?, part.length⟩ := by
        rw [← text_eq]
        simp [Piece.front, best, length_eq]
      rw [text_eq] at split ⊢
      rw [Token.listFrom_front nonempty front, Position.foldl_after]
      obtain ⟨raws, scan, same⟩ := exists_scan_from source (before ++ part) ahead (by simp [split])
      cases declares : pattern.kind? with
      | none =>
        refine ⟨raws, .skip (by simp [split]) declares takes scan, ?_⟩
        rintro behind gap rfl
        simpa using same behind (gap ++ part) (by simp)
      | some kind =>
        refine ⟨_, .token (by simp [split]) declares takes scan, ?_⟩
        rintro behind gap rfl
        have whole : source.toList = behind ++ gap ++ part ++ ahead := by simp [split]
        rw [Tokenizer.all_between_token (Pattern.ne_of_kind? declares).1 whole]
        simpa using same (behind ++ gap ++ part) [] (by simp)
termination_by rest.length
decreasing_by
  all_goals
    simp only [List.length_cons]
    omega

/-- The list of tokens is what the tokenizer makes of some scanner. -/
theorem Tokenizer.exists_scan (source : String) :
    ∃ raws, Scan source.toList 0 raws ∧ (ofScan source raws).all = Token.listOf source := by
  obtain ⟨raws, scan, same⟩ := exists_scan_from source [] source.toList rfl
  exact ⟨raws, scan, same [] [] rfl⟩

/-- Tokens lose nothing of their source and every position is right, also when a scanner reports
bytes that it does not know anywhere and in any portions. -/
theorem Tokenizer.tokens_lose_nothing (source : String) :
    Token.Faithful source (Token.listOf source) ∧
      ∀ raws, Scan source.toList 0 raws → Token.Faithful source (ofScan source raws).all := by
  have replay : ∀ raws, Scan source.toList 0 raws →
      Token.Faithful source (ofScan source raws).all := by
    intro raws scan
    have reaches : Reaches 0 ([] ++ []) := .whole []
    exact (@Scan.layout source [] [] source.toList raws 0 scan rfl reaches (by simp)).faithful
  obtain ⟨raws, scan, same⟩ := exists_scan source
  exact ⟨same ▸ replay raws scan, replay⟩

/-- The euro sign is reported byte by byte, the last two of them together with the blank and the
exclamation mark behind it. -/
theorem Scan.cut_euro :
    Scan "€ !a\n//x".toList 0 [⟨none, 0, 1⟩, ⟨none, 1, 5⟩, ⟨some .identifier, 5, 6⟩] := by
  have remark : Scan "€ !a\n//x".toList (utf8Len "€ !a\n".toList) [] :=
    @Scan.skip _ "€ !a\n".toList ['/', '/', 'x'] [] .comment _ rfl rfl
      ⟨⟨['x'], rfl, by decide⟩, by simp⟩ .finish
  have feed : Pattern.blanks.Matches ['\n'] := by
    refine ⟨List.cons_ne_nil _ _, fun c mem => ?_⟩
    cases List.mem_singleton.mp mem
    decide
  have blank : Scan "€ !a\n//x".toList (utf8Len "€ !a".toList) [] :=
    @Scan.skip _ "€ !a".toList ['\n'] ['/', '/', 'x'] .blanks _ rfl rfl ⟨feed, nofun⟩ remark
  have word : Scan "€ !a\n//x".toList 5 [⟨some .identifier, 5, 6⟩] :=
    @Scan.token _ "€ !".toList ['a'] "\n//x".toList .word _ _ rfl rfl
      ⟨⟨'a', [], rfl, by decide, nofun⟩, nofun⟩ blank
  exact .unknown (by decide) (by decide) (.unknown (by decide) (by decide) word)

theorem Tokenizer.tokens_lose_nothing_cut :
    Scan "€ !a\n//x".toList 0 [⟨none, 0, 1⟩, ⟨none, 1, 5⟩, ⟨some .identifier, 5, 6⟩] ∧
      Token.Faithful "€ !a\n//x"
        (ofScan "€ !a\n//x" [⟨none, 0, 1⟩, ⟨none, 1, 5⟩, ⟨some .identifier, 5, 6⟩]).all :=
  ⟨Scan.cut_euro, (tokens_lose_nothing "€ !a\n//x").2 _ Scan.cut_euro⟩

example :
    (Tokenizer.ofScan "€ !a\n//x" [⟨none, 0, 1⟩, ⟨none, 1, 5⟩, ⟨some .identifier, 5, 6⟩]).all =
      [⟨.invalid, "€", ⟨1, 1⟩⟩, ⟨.invalid, "!", ⟨1, 3⟩⟩, ⟨.identifier, "a", ⟨1, 4⟩⟩,
        .eofAt ⟨2, 4⟩] := by
  cbv

end ImpStack
