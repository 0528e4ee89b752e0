import SearchCriteria.Proofs.Completeness

/-!
# Every text the reader accepts can still be completed

A reader refuses a character as soon as no text that starts with what it has read can be a
query, and not later: from every state it reaches there is a way on to a query, whatever its
depth, its waiting junctions or the part of a keyword it holds. A state is `State.Live` when
some more text takes it to a state that finishes with a query. Every well-formed state is live
(`State.live_of_wellFormed`): a relational expression is always welcome where a primary starts,
and closing parentheses are never refused while groups are open. The part of a keyword read so
far, the term check made at a junction's first letter and the depth limit are exactly what that
needs.

So feeding text succeeds exactly when the text can be completed to one the reader accepts
(`Reader.feed_ok_iff_completable`). Fed in pieces, the reader refuses the first piece that runs
past the longest completable beginning, with the error a reading of the whole text gives, and
after the last piece it finishes as a reading of the whole text does.
-/

namespace SearchCriteria

namespace State

variable {limits : Limits}

variable (limits) in
/-- Some more text takes the state to one that finishes with a query. -/
def Live (st : State) : Prop :=
  ∃ t q, (st.feed limits t >>= State.finish) = .ok q

/-- A state from which some text reaches a live state is live. -/
theorem Live.of_feed {st st' : State} {cs : List Char} (h : st.feed limits cs = .ok st')
    (hlive : st'.Live limits) : st.Live limits := by
  obtain ⟨t, q, hq⟩ := hlive
  exact ⟨cs ++ t, q, by rw [feed_append_of_feed h]; exact hq⟩

/-- A state that one character takes to a live state is live. -/
theorem Live.of_step {st st' : State} {c : Char} (h : st.step limits c = .ok st')
    (hlive : st'.Live limits) : st.Live limits :=
  Live.of_feed (show st.feed limits [c] = .ok st' by rw [feed_cons_of_step h]; rfl) hlive

end State

variable {limits : Limits}

/-- After a primary, closing every open group and ending the text finishes with a query: closing
parentheses are never refused while a group is open. By induction on the groups left open. -/
theorem AfterPrimary.live {s : List Char} {st : State} {e : Query} {sc : Scope}
    (h : AfterPrimary s st e sc) : st.Live limits := by
  obtain ⟨n, hn⟩ : ∃ n, sc.depth = n := ⟨_, rfl⟩
  induction n generalizing s st sc with
  | zero => exact ⟨[], _, h.feed_finish Blanks.nil hn⟩
  | succ n ih =>
    have hclose : st.feed limits ([] ++ [')']) =
        .ok (.expression e { sc with depth := sc.depth - 1 }) := h.feed_close Blanks.nil (by omega)
    exact State.Live.of_feed hclose (ih (s := []) .expression (by simp [hn]))

/-- Where a primary may start, within the nesting limit, the relational expression `a = ""`
is read. -/
theorem Ready.live {st : State} {sc : Scope} {lead : Bool} (h : Ready st sc lead)
    (hdepth : sc.depth ≤ limits.maxNestingDepth) : st.Live limits := by
  have hprop : IsProperty "a".toList := by
    simp [IsProperty, isBlank, blanks]
  have hspace : Spacing [' '] := ⟨by simp, by simp [Blanks, isBlank, blanks]⟩
  have hbody : QuotedBody [] "".toList := by
    simp only [String.toList_empty]
    exact .nil
  have hrel : Relational ("a".toList ++ [' '] ++ TextOperator.equals.spelling.toList ++ [' '] ++
      '"' :: [] ++ ['"']) "a" (.text .equals "") := Relational.text hprop hspace hspace hbody
  have hstar : StarFree [.leaf "a" (.text .equals "")] := by
    intro p hp
    simp only [Token.firstProperty, Option.some.injEq] at hp
    subst hp
    simp
  obtain ⟨st', hrun, hafter⟩ := (Spells.leaf hrel).feed_of_fits .allResults h (fun _ => hstar)
    ⟨by simpa using hdepth, Or.inl rfl⟩
  exact State.Live.of_feed hrun hafter.live

namespace State

/-- After an operator, a blank and an operand complete the relational expression: true for
exists, an empty double-quoted text for the others. -/
theorem live_awaitOperand (name : String) (op : Operator) (spaced : Bool) (sc : Scope) :
    (awaitOperand name op spaced sc).Live limits := by
  have hspaced : (awaitOperand name op spaced sc).step limits ' ' =
      .ok (awaitOperand name op true sc) := by
    simp [State.step.eq_def, isBlank, blanks]
  refine Live.of_step hspaced ?_
  cases op with
  | presence =>
    have hstart : (awaitOperand name .presence true sc).step limits 't' =
        .ok (flag name true 1 sc) := by
      simp [State.step.eq_def, isBlank, blanks]
    have hflag : (flag name true 1 sc).feed limits ((flagSpelling true).toList.drop 1) =
        .ok (flag name true (flagSpelling true).length sc) := feed_flag name true sc (by decide)
    have hnot : ¬ EndsClosed [] := by simp [EndsClosed]
    exact Live.of_step hstart (Live.of_feed hflag (AfterPrimary.flag hnot).live)
  | text op =>
    exact Live.of_step (step_awaitOperand_quote name op sc)
      (Live.of_step (step_text_quote name op "" sc) (AfterPrimary.expression (s := [])).live)

/-- The rest of an operator word and a blank complete the operator. -/
theorem live_operatorWord (name : String) (word : WordOperator) {typed : Nat} (sc : Scope)
    (htyped : typed ≤ word.spelling.length) : (operatorWord name word typed sc).Live limits :=
  Live.of_feed (feed_operatorWord name word sc htyped (c := ' ') (by simp [isBlank, blanks]))
    (live_awaitOperand name word.operator true sc)

/-- Every well-formed state is live: no state a reader reaches is a dead end. Inside a property a
blank ends it and an equals sign is an operator; inside an operand a double quote, escaped or
not, leads to its end; a junction word passed the term check at its first letter, so its keyword
and a blank always complete it. -/
theorem live_of_wellFormed {st : State} (hwf : st.WellFormed limits) : st.Live limits := by
  cases st with
  | root depth => exact (Ready.root depth).live hwf
  | wildcard => exact ⟨[], _, rfl⟩
  | property token sc =>
    have hend : (property token sc).step limits ' ' = .ok (awaitOperator token sc) := by
      simp [State.step.eq_def, isBlank, blanks]
    have hequals : (awaitOperator token sc).step limits '=' =
        .ok (awaitOperand token (.text .equals) false sc) := by
      simp [State.step.eq_def, isBlank, blanks]
    exact Live.of_step hend (Live.of_step hequals (live_awaitOperand _ _ _ sc))
  | awaitOperator name sc =>
    have hequals : (awaitOperator name sc).step limits '=' =
        .ok (awaitOperand name (.text .equals) false sc) := by
      simp [State.step.eq_def, isBlank, blanks]
    exact Live.of_step hequals (live_awaitOperand _ _ _ sc)
  | symbol name start sc =>
    have hequals : (symbol name start sc).step limits '=' =
        .ok (awaitOperand name (.text start.withEquals) false sc) := by
      simp [State.step.eq_def]
    exact Live.of_step hequals (live_awaitOperand _ _ _ sc)
  | derivedOrDoesNot name sc =>
    have hsecond : (derivedOrDoesNot name sc).step limits 'o' =
        .ok (operatorWord name .doesNotContain 2 sc) := by
      simp [State.step.eq_def]
    exact Live.of_step hsecond (live_operatorWord name _ sc (by decide))
  | operatorWord name word typed sc => exact live_operatorWord name word sc hwf.2.1
  | awaitOperand name op spaced sc => exact live_awaitOperand name op spaced sc
  | text name op content escaped sc =>
    cases escaped with
    | false =>
      exact Live.of_step (step_text_quote name op content sc)
        (AfterPrimary.expression (s := [])).live
    | true =>
      exact Live.of_step (step_text_escaped (.inl rfl) name op content sc)
        (Live.of_step (step_text_quote name op _ sc) (AfterPrimary.expression (s := [])).live)
  | flag name value typed sc =>
    have hnot : ¬ EndsClosed [] := by simp [EndsClosed]
    exact Live.of_feed (feed_flag name value sc hwf.2.1) (AfterPrimary.flag hnot).live
  | expression operand sc => exact (AfterPrimary.expression (s := [])).live
  | junctionWord j typed sc =>
    obtain ⟨-, htyped, hdepth⟩ := hwf
    exact Live.of_feed (feed_junctionWord j sc htyped (c := ' ') (by simp [isBlank, blanks]))
      ((Ready.joined j sc).live hdepth)
  | joined j sc => exact (Ready.joined j sc).live hwf

/-- From a well-formed state, feeding text succeeds exactly when more text takes the reader on
to a query. -/
theorem feed_ok_iff_live {st : State} (hwf : st.WellFormed limits) (cs : List Char) :
    (∃ st', st.feed limits cs = .ok st') ↔
      ∃ t q, (st.feed limits (cs ++ t) >>= State.finish) = .ok q := by
  constructor
  · rintro ⟨st', h⟩
    obtain ⟨t, q, hq⟩ := live_of_wellFormed (feed_wellFormed hwf h)
    exact ⟨t, q, by rw [feed_append_of_feed h]; exact hq⟩
  · rintro ⟨t, q, hq⟩
    cases h : st.feed limits cs with
    | ok st' => exact ⟨st', rfl⟩
    | error err =>
      rw [feed_append_of_error h] at hq
      cases hq

end State

variable (limits) in
/-- Criteria text that some more text completes to a text the reader accepts. -/
def Completable (s : String) : Prop :=
  ∃ t q, Query.parse limits (s ++ t) = .ok q

/-- A fresh reader runs through a text exactly when the text can be completed. -/
theorem root_feed_ok_iff_completable (s : String) :
    (∃ st, (State.root 0).feed limits s.toList = .ok st) ↔ Completable limits s := by
  rw [State.feed_ok_iff_live (Nat.zero_le _)]
  constructor
  · rintro ⟨t, q, hq⟩
    refine ⟨String.ofList t, q, ?_⟩
    rw [Query.parse_eq_feed, String.toList_append, String.toList_ofList]
    exact hq
  · rintro ⟨t, q, hq⟩
    refine ⟨t.toList, q, ?_⟩
    rw [Query.parse_eq_feed, String.toList_append] at hq
    exact hq

namespace Reader

/-- Feed pieces of text one after another, stopping at the first refused character. -/
def feedPieces (r : Reader) (pieces : List String) : Except ParseError Reader :=
  pieces.foldlM Reader.feed r

/-- A reader feeds a piece by feeding its state the piece's characters. -/
theorem feed_eq (r : Reader) (piece : String) :
    r.feed piece =
      (r.state.feed r.limits piece.toList >>= fun st => pure (⟨r.limits, st⟩ : Reader)) := rfl

/-- Feeding pieces one after another is feeding their concatenation. -/
theorem feedPieces_eq (r : Reader) (pieces : List String) :
    r.feedPieces pieces = (r.state.feed r.limits (String.join pieces).toList >>=
      fun st => pure (⟨r.limits, st⟩ : Reader)) := by
  induction pieces generalizing r with
  | nil => rfl
  | cons piece pieces ih =>
    have hcons : r.feedPieces (piece :: pieces) =
        (r.feed piece >>= fun r' => r'.feedPieces pieces) := rfl
    rw [hcons, feed_eq, String.toList_join, List.flatMap_cons, ← String.toList_join]
    cases h : r.state.feed r.limits piece.toList with
    | error err =>
      rw [State.feed_append_of_error h]
      rfl
    | ok st =>
      rw [State.feed_append_of_feed h]
      exact ih ⟨r.limits, st⟩

/-- A fresh reader fed pieces reads their concatenation from the start state. -/
theorem new_feedPieces (pieces : List String) :
    (Reader.new limits).feedPieces pieces = ((State.root 0).feed limits (String.join pieces).toList
      >>= fun st => pure (⟨limits, st⟩ : Reader)) :=
  feedPieces_eq _ _

/-- Feeding one piece is feeding it alone. -/
theorem feedPieces_singleton (r : Reader) (piece : String) :
    r.feedPieces [piece] = r.feed piece := by
  simp [feedPieces]

/-- Wrapping the state into a reader succeeds exactly when the run succeeds. -/
theorem exists_bind_pure_eq_ok {x : Except ParseError State} {f : State → Reader} :
    (∃ r, (x >>= fun st => pure (f st)) = .ok r) ↔ ∃ st, x = .ok st := by
  cases x with
  | error err => simp [bind, Except.bind]
  | ok st => simp [bind, Except.bind, pure, Except.pure]

/-- Feeding a fresh reader text in pieces succeeds exactly when their concatenation can be
completed. -/
theorem feedPieces_ok_iff_completable (pieces : List String) :
    (∃ r, (Reader.new limits).feedPieces pieces = .ok r) ↔
      Completable limits (String.join pieces) := by
  rw [new_feedPieces, exists_bind_pure_eq_ok]
  exact root_feed_ok_iff_completable _

/-- A refused piece refuses the whole text with the same error. -/
theorem parse_of_feedPieces_error {pieces : List String} {err : ParseError}
    (h : (Reader.new limits).feedPieces pieces = .error err) :
    Query.parse limits (String.join pieces) = .error err := by
  rw [new_feedPieces] at h
  rw [Query.parse_eq_feed]
  cases hfeed : (State.root 0).feed limits (String.join pieces).toList with
  | error err' =>
    rw [hfeed] at h
    cases h
    rfl
  | ok st =>
    rw [hfeed] at h
    cases h

/-- After the last piece the reader finishes as a reading of the whole text does. -/
theorem finish_of_feedPieces_ok {pieces : List String} {r : Reader}
    (h : (Reader.new limits).feedPieces pieces = .ok r) :
    r.finish = Query.parse limits (String.join pieces) := by
  rw [new_feedPieces] at h
  rw [Query.parse_eq_feed]
  obtain ⟨st, hst, hr⟩ := ok_of_bind_eq_ok h
  cases hr
  rw [hst]
  rfl

/-- Feeding a fresh reader succeeds exactly when the text fed can still be completed to a text
the reader accepts. Fed in pieces, the first `k` pieces go through exactly when their
concatenation can be completed, so the reader refuses the first piece that runs past the longest
completable beginning of the text; it refuses it with the error that reading the whole
concatenation gives, and when every piece goes through it finishes as that reading does. -/
theorem feed_ok_iff_completable (limits : Limits) :
    (∀ s : String, (∃ r, (Reader.new limits).feed s = .ok r) ↔ Completable limits s) ∧
      ∀ pieces : List String,
        (∀ k, (∃ r, (Reader.new limits).feedPieces (pieces.take k) = .ok r) ↔
          Completable limits (String.join (pieces.take k))) ∧
        (∀ err, (Reader.new limits).feedPieces pieces = .error err →
          Query.parse limits (String.join pieces) = .error err) ∧
        (∀ r, (Reader.new limits).feedPieces pieces = .ok r →
          r.finish = Query.parse limits (String.join pieces)) := by
  refine ⟨fun s => ?_, fun pieces => ⟨fun k => feedPieces_ok_iff_completable _,
    fun _ h => parse_of_feedPieces_error h, fun _ h => finish_of_feedPieces_ok h⟩⟩
  rw [← feedPieces_singleton]
  have hone : (∃ r, (Reader.new limits).feedPieces [s] = .ok r) ↔
      Completable limits (String.join [s]) := feedPieces_ok_iff_completable [s]
  simpa using hone

end Reader

end SearchCriteria
