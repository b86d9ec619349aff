import ImpStack.Proofs.Replay
import ImpStack.Token.Supply

/-!
However tokens are drawn (SPEC_FULL, section 4.1), they are one list in its order
(`Token.draws_share_one_list`). A draw takes the first token off what a supply has left, and the end
of the input stays (`Token.Takes`); so it is in the middle of a run of invalid characters and behind
the end as anywhere else. What a whole sequence of draws delivers follows by induction.

Streams and tokenizers are two supplies. What both of their ways to draw have in common is
`LawfulTokenSupply`, and the results about sequences are proved from it once.
-/
namespace ImpStack

/-- The token number `index` of a list whose last token is repeated for ever. -/
def Token.nth? (tokens : List Token) (index : Nat) : Option Token :=
  tokens[min index (tokens.length - 1)]?

/-- The draw number `index` is one by `next?`, and it delivers the end of the input. -/
def EndsNext (draws : List Draw) (answers : List (Option Token)) (index : Nat) : Prop :=
  draws[index]? = some .next ∧ ∃ token, answers[index]? = some (some token) ∧ token.kind = .eof

/-- The answers to the draws, and what is left behind them, are the tokens in their order. -/
structure DrawnFrom (tokens : List Token) (draws : List Draw) (answers : List (Option Token))
    (left : List Token) : Prop where
  ends : ∃ body finish, tokens = body ++ [finish] ∧ finish.kind = .eof ∧
    ∀ token ∈ body, token.kind ≠ .eof
  length_eq : answers.length = draws.length
  inOrder : ∀ index < (answers.filterMap id).length,
    (answers.filterMap id)[index]? = Token.nth? tokens index
  none_iff : ∀ index, answers[index]? = some none ↔
    draws[index]? = some .next ∧ ∃ earlier < index, EndsNext draws answers earlier
  left_eq : left = tokens.drop (min (answers.filterMap id).length (tokens.length - 1))

/-! ### One token -/

/-- The first token is taken off a list, unless it is the end of the input. -/
inductive Token.Takes : (before : List Token) → Token → (after : List Token) → Prop
  | finish {token : Token} (isEof : token.isEof = true) : Takes [token] token [token]
  | token {token : Token} {after : List Token} (isEof : token.isEof = false)
      (nonempty : after ≠ []) : Takes (token :: after) token after

namespace Token.Takes

variable {before after : List Token} {token : Token}

theorem nth?_zero (takes : Takes before token after) : nth? before 0 = some token := by
  cases takes <;> simp [nth?]

/-- Behind the token that was taken the others have moved up. -/
theorem nth?_succ (takes : Takes before token after) (index : Nat) :
    nth? before (index + 1) = nth? after index := by
  cases takes with
  | finish => simp [nth?]
  | token _ nonempty =>
    have := List.length_pos_of_ne_nil nonempty
    have next : min (index + 1) after.length = min index (after.length - 1) + 1 := by omega
    simp [nth?, next]

theorem drop_succ (takes : Takes before token after) (count : Nat) :
    before.drop (min (count + 1) (before.length - 1)) =
      after.drop (min count (after.length - 1)) := by
  cases takes with
  | finish => simp
  | token _ nonempty =>
    have := List.length_pos_of_ne_nil nonempty
    have next : min (count + 1) after.length = min count (after.length - 1) + 1 := by omega
    simp [next]

end Token.Takes

/-- What both ways of drawing do to what is left and to the flag of `next?`, in a sound state. -/
class LawfulTokenSupply (σ : Type) [TokenSupply σ] where
  Sound : σ → Prop
  finished : σ → Bool
  takes : ∀ {supply : σ}, Sound supply →
    Token.Takes (TokenSupply.remaining supply) (TokenSupply.nextToken supply).1
      (TokenSupply.remaining (TokenSupply.nextToken supply).2)
  sound_nextToken : ∀ {supply : σ}, Sound supply → Sound (TokenSupply.nextToken supply).2
  finished_nextToken : ∀ supply : σ, finished (TokenSupply.nextToken supply).2 = finished supply
  next?_of_finished : ∀ {supply : σ}, finished supply = true →
    TokenSupply.next? supply = (none, supply)
  /-- An open supply is drawn from in the same way, and then its flag is set at the end. -/
  next?_of_open : ∀ {supply : σ}, finished supply = false →
    ∃ marked, TokenSupply.next? supply = (some (TokenSupply.nextToken supply).1, marked) ∧
      (Sound (TokenSupply.nextToken supply).2 → Sound marked) ∧
      TokenSupply.remaining marked = TokenSupply.remaining (TokenSupply.nextToken supply).2 ∧
      finished marked = (TokenSupply.nextToken supply).1.isEof

namespace TokenSupply

open LawfulTokenSupply (Sound finished)

variable {σ : Type} [TokenSupply σ] [LawfulTokenSupply σ] {supply : σ}

/-- What a draw can do: it delivers a token and takes it off what is left, or it is by `next?` on a
finished supply. -/
inductive Drawn (supply : σ) : Draw → Option Token → σ → Prop
  | token {draw : Draw} {token : Token} {later : σ} (sound : Sound later)
      (takes : Token.Takes (remaining supply) token (remaining later))
      (isOpen : draw = .next → finished supply = false)
      (flag : finished later = true ↔
        finished supply = true ∨ draw = .next ∧ token.isEof = true) :
      Drawn supply draw (some token) later
  | none (isFinished : finished supply = true) : Drawn supply .next none supply

/-- Each way of drawing does one of these two things. -/
theorem drawn (sound : Sound supply) (choice : Draw) :
    Drawn supply choice (draw supply choice).1 (draw supply choice).2 := by
  have takes := LawfulTokenSupply.takes sound
  have later := LawfulTokenSupply.sound_nextToken sound
  cases choice with
  | nextToken =>
    refine .token later takes (by simp) ?_
    rw [show draw supply .nextToken = (some (nextToken supply).1, (nextToken supply).2) from rfl,
      LawfulTokenSupply.finished_nextToken]
    simp
  | next =>
    rw [show draw supply .next = next? supply from rfl]
    by_cases isFinished : finished supply = true
    · rw [LawfulTokenSupply.next?_of_finished isFinished]
      exact .none isFinished
    · have isOpen : finished supply = false := by simpa using isFinished
      obtain ⟨marked, drawn, soundMarked, left, flag⟩ := LawfulTokenSupply.next?_of_open isOpen
      rw [drawn]
      exact .token (soundMarked later) (left ▸ takes) (fun _ => isOpen) (by simp [flag, isOpen])

/-! ### Several draws -/

/-- The tokens delivered are the first ones of those that were left, and the others are left. -/
theorem drawAll_inOrder (sound : Sound supply) (draws : List Draw) :
    (∀ index < ((drawAll supply draws).1.filterMap id).length,
      ((drawAll supply draws).1.filterMap id)[index]? = Token.nth? (remaining supply) index) ∧
    remaining (drawAll supply draws).2 =
      (remaining supply).drop
        (min ((drawAll supply draws).1.filterMap id).length ((remaining supply).length - 1)) := by
  induction draws generalizing supply with
  | nil => simp [drawAll]
  | cons first draws ih =>
    rw [drawAll_cons]
    have drawn := drawn sound first
    generalize draw supply first = result at drawn ⊢
    obtain ⟨answer, later⟩ := result
    cases drawn with
    | @token _ token _ sound takes isOpen flag =>
      obtain ⟨inOrder, left⟩ := ih sound
      refine ⟨?_, ?_⟩
      · intro index lt
        cases index with
        | zero => simp [takes.nth?_zero]
        | succ index =>
          rw [takes.nth?_succ, ← inOrder index (by simpa using lt)]
          simp
      · simp only [List.filterMap_cons, id, List.length_cons]
        rw [takes.drop_succ]
        exact left
    | none isFinished => simpa using ih sound

/-- Behind a finished supply, and behind a draw by `next?` that has delivered the end, `next?`
answers none, and nowhere else is it answered. -/
theorem drawAll_none_iff (sound : Sound supply) (draws : List Draw) (index : Nat) :
    (drawAll supply draws).1[index]? = some none ↔
      draws[index]? = some .next ∧ (finished supply = true ∨
        ∃ earlier < index, EndsNext draws (drawAll supply draws).1 earlier) := by
  induction draws generalizing supply index with
  | nil => simp [drawAll]
  | cons first draws ih =>
    rw [drawAll_cons]
    have drawn := drawn sound first
    generalize draw supply first = result at drawn ⊢
    obtain ⟨answer, later⟩ := result
    cases index with
    | zero =>
      cases drawn with
      | token _ _ isOpen _ =>
        simp only [List.getElem?_cons_zero, Option.some.injEq, reduceCtorEq, false_iff]
        rintro ⟨isNext, isFinished | ⟨earlier, lt, _⟩⟩
        · rw [isOpen isNext] at isFinished
          cases isFinished
        · exact absurd lt (Nat.not_lt_zero _)
      | none isFinished => simp [isFinished]
    | succ index =>
      have shift : ∀ earlier, EndsNext (first :: draws) (answer :: (drawAll later draws).1)
          (earlier + 1) ↔ EndsNext draws (drawAll later draws).1 earlier := by
        simp [EndsNext]
      -- the flag behind the first draw says that it was set or that this draw has delivered the end
      have flags : (finished later = true ↔ finished supply = true ∨
          EndsNext (first :: draws) (answer :: (drawAll later draws).1) 0) ∧ Sound later := by
        cases drawn with
        | token sound _ _ flag => exact ⟨by simpa [EndsNext, Token.isEof] using flag, sound⟩
        | none isFinished => exact ⟨by simp [EndsNext, isFinished], sound⟩
      simp only [List.getElem?_cons_succ]
      rw [ih flags.2 index, flags.1, or_assoc]
      refine and_congr_right fun _ => or_congr_right ?_
      constructor
      · rintro (here | ⟨earlier, lt, ends⟩)
        · exact ⟨0, Nat.succ_pos _, here⟩
        · exact ⟨earlier + 1, Nat.succ_lt_succ lt, (shift earlier).mpr ends⟩
      · rintro ⟨earlier, lt, ends⟩
        cases earlier with
        | zero => exact .inl ends
        | succ earlier => exact .inr ⟨earlier, Nat.lt_of_succ_lt_succ lt, (shift earlier).mp ends⟩

/-- Of a supply that is not finished, all that is drawn comes from the list of its tokens. -/
theorem drawnFrom (sound : Sound supply) (isOpen : finished supply = false)
    (ends : ∃ body finish, remaining supply = body ++ [finish] ∧ finish.kind = .eof ∧
      ∀ token ∈ body, token.kind ≠ .eof) (draws : List Draw) :
    DrawnFrom (remaining supply) draws (drawAll supply draws).1
      (remaining (drawAll supply draws).2) where
  ends := ends
  length_eq := length_drawAll supply draws
  inOrder := (drawAll_inOrder sound draws).1
  none_iff := by
    intro index
    rw [drawAll_none_iff sound, isOpen]
    simp
  left_eq := (drawAll_inOrder sound draws).2

end TokenSupply

/-! ### Streams -/

/-- What stands in front of the next token of a text makes no token. -/
theorem Token.listFrom_separator (skip : Nat) (cursor : Cursor) :
    listFrom skip cursor.position cursor.rest =
      listFrom 0 (cursor.advanceBy (separatorLength skip cursor.rest)).position
        (cursor.advanceBy (separatorLength skip cursor.rest)).rest := by
  obtain ⟨text, offset, position⟩ := cursor
  induction text generalizing skip offset position with
  | nil => cases skip <;> rfl
  | cons c rest ih =>
    cases skip with
    | succ skip => exact ih skip _ _
    | zero =>
      cases front : (Piece.front (c :: rest)).kind? with
      | none =>
        have following := ih ((Piece.front (c :: rest)).length - 1) (offset + c.utf8Size)
          (position.after c)
        simp only [separatorLength, front, Cursor.advanceBy, Cursor.advance]
        rw [← following]
        simp [listFrom, front]
      | some kind => simp [separatorLength, front, Cursor.advanceBy]

/-- Behind the separators stands a token or nothing. -/
theorem drop_separatorLength (skip : Nat) (text : List Char) :
    text.drop (separatorLength skip text) = [] ∨
      ∃ kind, (Piece.front (text.drop (separatorLength skip text))).kind? = some kind := by
  induction text generalizing skip with
  | nil => simp
  | cons c rest ih =>
    cases skip with
    | succ skip => exact ih skip
    | zero =>
      cases front : (Piece.front (c :: rest)).kind? with
      | none =>
        simp only [separatorLength, front]
        exact ih _
      | some kind => exact .inr ⟨kind, by simp [separatorLength, front]⟩

/-- Skipping characters is moving the cursor. -/
theorem Token.listFrom_advanceBy (cursor : Cursor) (count : Nat) :
    listFrom count cursor.position cursor.rest =
      listFrom 0 (cursor.advanceBy count).position (cursor.advanceBy count).rest := by
  induction count generalizing cursor with
  | zero => rfl
  | succ count ih =>
    rw [Cursor.advanceBy, ← ih]
    obtain ⟨text, offset, position⟩ := cursor
    cases text with
    | nil => cases count <;> rfl
    | cons c rest => rfl

theorem Token.listFrom_ne_nil (skip : Nat) (position : Position) (text : List Char) :
    listFrom skip position text ≠ [] := by
  obtain ⟨body, finish, listed, _⟩ := exists_listFrom_eq skip position text
  simp [listed]

namespace TokenStream

/-- A draw from a stream takes off the next token of the text that is left. -/
theorem takes (stream : TokenStream) :
    Token.Takes stream.remaining stream.nextToken.1 stream.nextToken.2.remaining := by
  unfold remaining nextToken
  rw [Token.listFrom_separator 0 stream.cursor]
  have behind := drop_separatorLength 0 stream.cursor.rest
  rw [← Cursor.advanceBy_rest] at behind
  generalize stream.cursor.advanceBy (separatorLength 0 stream.cursor.rest) = here at behind ⊢
  obtain ⟨text, offset, position⟩ := here
  cases text with
  | nil => exact .finish rfl
  | cons c rest =>
    obtain ⟨kind, front⟩ := behind.resolve_left (List.cons_ne_nil c rest)
    obtain ⟨part, ahead, _, nonempty, length_eq⟩ := Piece.exists_part c rest
    obtain ⟨length, succ⟩ := Nat.exists_eq_succ_of_ne_zero
      (length_eq ▸ mt List.eq_nil_of_length_eq_zero nonempty)
    have following := Token.listFrom_advanceBy ⟨c :: rest, offset, position⟩ (length + 1)
    simp only [Token.listFrom, front, succ, Nat.succ_eq_add_one, Nat.add_sub_cancel,
      Option.getD_some] at following ⊢
    rw [← following]
    refine .token ?_ (Token.listFrom_ne_nil _ _ _)
    simpa [Token.isEof] using Piece.kind?_ne_eof front

instance : LawfulTokenSupply TokenStream where
  Sound _ := True
  finished := finished
  takes {stream} _ := stream.takes
  sound_nextToken _ := trivial
  finished_nextToken stream := by
    show stream.nextToken.2.finished = stream.finished
    unfold nextToken
    dsimp only
    split <;> rfl
  next?_of_finished {stream} isFinished := by
    show stream.next? = (none, stream)
    rw [next?, if_pos isFinished]
  next?_of_open {stream} isOpen := by
    refine ⟨{ stream.nextToken.2 with finished := stream.nextToken.1.isEof }, ?_,
      fun _ => trivial, rfl, rfl⟩
    show stream.next? = _
    rw [next?, if_neg (by simp [isOpen])]
    rfl

end TokenStream

/-! ### Tokenizers -/

/-- A walk over unknown bytes delivers no end of the input. -/
theorem Cursor.isEof_of_mem_invalidsTo {stop offset : Nat} {text : List Char} {position : Position}
    {token : Token} (member : token ∈ (invalidsTo stop text offset position).1) :
    token.isEof = false := by
  induction text generalizing offset position with
  | nil => cases member
  | cons c rest ih =>
    unfold invalidsTo at member
    split at member
    · dsimp only at member
      split at member
      · exact ih member
      · rcases List.mem_cons.mp member with rfl | later
        · rfl
        · exact ih later
    · cases member

namespace Tokenizer

/-- The end of the input is neither reported nor waiting. -/
structure Sound (tokenizer : Tokenizer) : Prop where
  reported : ∀ raw ∈ tokenizer.raws, raw.kind? ≠ some .eof
  waiting : ∀ token ∈ tokenizer.pending, token.isEof = false

/-- The end of the input leaves a tokenizer that delivers it again. -/
theorem resume_sound {source : String} {raws : List RawSpan} (cursor : Cursor)
    (reported : ∀ raw ∈ raws, raw.kind? ≠ some .eof) :
    (resume source raws cursor).2.Sound ∧
      ((resume source raws cursor).1.isEof = true →
        (resume source raws cursor).2.nextToken = resume source raws cursor) := by
  induction raws generalizing cursor with
  | nil =>
    refine ⟨⟨by simp [resume], by simp [resume]⟩, fun _ => ?_⟩
    simp [resume, nextToken, Cursor.advanceTo_advanceTo]
  | cons raw raws ih =>
    obtain ⟨first, later⟩ := List.forall_mem_cons.mp reported
    unfold resume
    split
    · next kind declares =>
      have other : kind ≠ .eof := fun same => first (declares.trans (congrArg some same))
      exact ⟨⟨later, by simp⟩, by simp [Token.isEof, other]⟩
    · split
      · exact ih cursor later
      · have inside : ∀ token ∈ (Cursor.invalidsTo raw.stop (cursor.advanceTo raw.start).rest
            (cursor.advanceTo raw.start).offset (cursor.advanceTo raw.start).position).1,
            token.isEof = false := fun token => Cursor.isEof_of_mem_invalidsTo
        dsimp only
        -- An unknown report gives no token if its bytes were passed already, else the first of a
        -- queue of invalid ones.
        split
        · exact ih _ later
        · next token pending there read =>
          rw [read] at inside
          obtain ⟨here, waiting⟩ := List.forall_mem_cons.mp inside
          exact ⟨⟨later, waiting⟩, by simp [here]⟩

/-- A draw leaves a sound tokenizer, also in the middle of a run of invalid characters. -/
theorem nextToken_sound {tokenizer : Tokenizer} (sound : tokenizer.Sound) :
    tokenizer.nextToken.2.Sound ∧
      (tokenizer.nextToken.1.isEof = true →
        tokenizer.nextToken.2.nextToken = tokenizer.nextToken) := by
  obtain ⟨source, raws, cursor, pending⟩ := tokenizer
  cases pending with
  | nil => exact resume_sound cursor sound.reported
  | cons token pending =>
    obtain ⟨here, waiting⟩ := List.forall_mem_cons.mp sound.waiting
    exact ⟨⟨sound.reported, waiting⟩, by simp [nextToken, here]⟩

theorem all_ne_nil (tokenizer : Tokenizer) : tokenizer.all ≠ [] := by
  rw [all]
  split <;> simp

/-- A draw from a tokenizer takes off the first of the tokens that it would deliver. -/
theorem takes {tokenizer : Tokenizer} (sound : tokenizer.Sound) :
    Token.Takes tokenizer.all tokenizer.nextToken.1 tokenizer.nextToken.2.all := by
  by_cases ends : tokenizer.nextToken.1.isEof = true
  · rw [all_congr ((nextToken_sound sound).2 ends), all, if_pos ends]
    exact .finish ends
  · rw [all, if_neg ends]
    exact .token (by simpa using ends) (all_ne_nil _)

/-- The tokens end in one end of the input. -/
theorem exists_all_eq (tokenizer : Tokenizer) :
    ∃ body finish, tokenizer.all = body ++ [finish] ∧ finish.kind = .eof ∧
      ∀ token ∈ body, token.kind ≠ .eof := by
  fun_induction all tokenizer with
  | case1 tokenizer ends => exact ⟨[], _, rfl, by simpa [Token.isEof] using ends, by simp⟩
  | case2 tokenizer goes ih =>
    obtain ⟨body, finish, following, kind, inside⟩ := ih
    rw [following]
    refine ⟨_ :: body, finish, rfl, kind, List.forall_mem_cons.mpr ⟨?_, inside⟩⟩
    simpa [Token.isEof] using goes

end Tokenizer

instance : LawfulTokenSupply TokenIterator where
  Sound iterator := iterator.tokenizer.Sound
  finished := TokenIterator.finished
  takes sound := Tokenizer.takes sound
  sound_nextToken sound := (Tokenizer.nextToken_sound sound).1
  finished_nextToken _ := rfl
  next?_of_finished {iterator} isFinished := by
    show iterator.next? = (none, iterator)
    rw [TokenIterator.next?, if_pos isFinished]
  next?_of_open {iterator} isOpen := by
    refine ⟨{ iterator.nextToken.2 with finished := iterator.nextToken.1.isEof }, ?_, id, rfl, rfl⟩
    show iterator.next? = _
    rw [TokenIterator.next?, if_neg (by simp [isOpen])]
    rfl

/-- Whatever is drawn from a text, and however, comes from one list: the tokens in their order, the
end of the input again and again behind them, and in the end those that are left. So it is for every
tokenizer too, whatever tokens and unknown bytes its scanner reports. -/
theorem Token.draws_share_one_list (source : String) (draws : List Draw) :
    DrawnFrom (listOf source) draws (TokenSupply.drawAll (TokenStream.ofText source) draws).1
      (TokenSupply.drawAll (TokenStream.ofText source) draws).2.remaining ∧
    ∀ raws : List RawSpan, (∀ raw ∈ raws, raw.kind? ≠ some .eof) →
      DrawnFrom (Tokenizer.ofScan source raws).all draws
        (TokenSupply.drawAll (TokenIterator.ofScan source raws) draws).1
        (TokenSupply.drawAll (TokenIterator.ofScan source raws) draws).2.remaining := by
  constructor
  · obtain ⟨body, finish, listed, inside⟩ := exists_listFrom_eq 0 .start source.toList
    exact @TokenSupply.drawnFrom TokenStream _ _ (.ofText source) trivial rfl
      ⟨body, _, listed, rfl, inside⟩ draws
  · intro raws reported
    have sound : (Tokenizer.ofScan source raws).Sound := ⟨reported, by simp [Tokenizer.ofScan]⟩
    exact @TokenSupply.drawnFrom TokenIterator _ _ (.ofScan source raws) sound rfl
      (Tokenizer.exists_all_eq _) draws

/-- Two invalid characters with a blank between them are one report; the second of them waits when
the other way of drawing is taken. The end of the input is asked for in both ways. -/
theorem Token.draws_share_one_list_waiting :
    (∀ raw ∈ [⟨none, 0, 5⟩, ⟨some .identifier, 5, 6⟩], RawSpan.kind? raw ≠ some .eof) ∧
    DrawnFrom (Tokenizer.ofScan "€ !a" [⟨none, 0, 5⟩, ⟨some .identifier, 5, 6⟩]).all
      [.next, .nextToken, .next, .nextToken, .next, .next, .nextToken]
      [some ⟨.invalid, "€", ⟨1, 1⟩⟩, some ⟨.invalid, "!", ⟨1, 3⟩⟩,
        some ⟨.identifier, "a", ⟨1, 4⟩⟩, some (.eofAt ⟨1, 5⟩), some (.eofAt ⟨1, 5⟩), none,
        some (.eofAt ⟨1, 5⟩)]
      [.eofAt ⟨1, 5⟩] := by
  have reported : ∀ raw ∈ [⟨none, 0, 5⟩, ⟨some .identifier, 5, 6⟩],
      RawSpan.kind? raw ≠ some .eof := by decide
  have answers : (TokenSupply.drawAll
      (TokenIterator.ofScan "€ !a" [⟨none, 0, 5⟩, ⟨some .identifier, 5, 6⟩])
      [.next, .nextToken, .next, .nextToken, .next, .next, .nextToken]).1 =
      [some ⟨.invalid, "€", ⟨1, 1⟩⟩, some ⟨.invalid, "!", ⟨1, 3⟩⟩,
        some ⟨.identifier, "a", ⟨1, 4⟩⟩, some (.eofAt ⟨1, 5⟩), some (.eofAt ⟨1, 5⟩), none,
        some (.eofAt ⟨1, 5⟩)] := by
    decide +kernel
  have left : (TokenSupply.drawAll
      (TokenIterator.ofScan "€ !a" [⟨none, 0, 5⟩, ⟨some .identifier, 5, 6⟩])
      [.next, .nextToken, .next, .nextToken, .next, .next, .nextToken]).2.remaining =
      [.eofAt ⟨1, 5⟩] := by
    rw [TokenIterator.remaining, Tokenizer.all, if_pos (by decide +kernel)]
    decide +kernel
  rw [← answers, ← left]
  exact ⟨reported, (draws_share_one_list "€ !a" _).2 _ reported⟩

end ImpStack
