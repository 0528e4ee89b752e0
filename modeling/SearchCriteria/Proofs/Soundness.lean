import SearchCriteria.Proofs.Prefixes
import SearchCriteria.Proofs.Completeness

/-!
# What the reader accepts is in the grammar

`Viable pre st` says that `pre`, the text a reader has read, is a beginning of criteria text of
the kind its state `st` stands for: blanks and opening parentheses at the root, the wildcard,
part of a relational expression where a primary starts, a complete expression and its
separator, part of a junction keyword after it, or the whole keyword and blanks. Every step
keeps it (`Viable.step`), so every run does (`Viable.feed`), and a state that can finish has
read the wildcard alone or a whole expression (`Viable.finish`). Together they show that the
reader accepts only text of the grammar, in which the first property does not start with an
asterisk (`Query.parse_sound`).
-/

namespace SearchCriteria

/-- What a reader in a state has read: a beginning of criteria text of the kind the state
stands for. Once a relational expression has begun, its property does not start with an
asterisk. -/
inductive Viable : List Char → State → Prop
  /-- Blanks and opening parentheses only. -/
  | root {pre : List Char} {d : Nat} : Opening d pre → leadChar pre = none → Viable pre (.root d)
  /-- The wildcard between blanks. -/
  | wildcard {pre : List Char} : WildcardText pre → Viable pre .wildcard
  /-- Part of a relational expression, begun where a primary starts. -/
  | leaf {pre b t : List Char} {st : State} :
      Begins st.scope.depth b → st.LeafPrefix t → pre = b ++ t → Lead pre → Viable pre st
  /-- A complete expression and what may separate it from a junction. -/
  | expression {pre o e w : List Char} {n : Nat} {ts : List Token} {q : Query} {sc : Scope} :
      Opening sc.depth o → Spells .expression n e ts → Separator e w → pre = o ++ e ++ w →
        Lead pre → Viable pre (.expression q sc)
  /-- Part of a junction keyword after a complete expression and its separator. -/
  | junctionWord {pre o e sep : List Char} {n typed : Nat} {ts : List Token} {j : Junction}
      {sc : Scope} :
      Opening sc.depth o → Spells .expression n e ts → Separator e sep →
        pre = o ++ e ++ sep ++ j.keyword.toList.take typed → Lead pre →
          Viable pre (.junctionWord j typed sc)
  /-- A whole junction keyword and blanks, where the next primary starts. -/
  | joined {pre : List Char} {j : Junction} {sc : Scope} :
      Begins sc.depth pre → Lead pre → Viable pre (.joined j sc)

/-- Blanks and one more blank make a spacing. -/
theorem Spacing.of_blanks_snoc {w : List Char} {c : Char} (hw : Blanks w) (hc : isBlank c = true) :
    Spacing (w ++ [c]) :=
  ⟨by simp, hw.append (Blanks.singleton hc)⟩

/-- A character that is neither blank nor a parenthesis is a property on its own. -/
theorem IsProperty.singleton {c : Char} (hc : isBlank c = false) (hopen : c ≠ '(')
    (hclose : c ≠ ')') : IsProperty [c] :=
  ⟨by simp, by simpa using hc, by simpa using hopen, by simpa using hclose⟩

/-- A first character that is neither a blank nor an opening parenthesis is where the first
property starts. -/
theorem leadChar_snoc_of_eq_none {pre : List Char} {c : Char} (h : leadChar pre = none)
    (hc : isBlank c = false) (hopen : c ≠ '(') : leadChar (pre ++ [c]) = some c := by
  rw [leadChar_append_of_eq_none h]
  simp [leadChar, hc, hopen]

/-- A whole flag after the property and the presence operator is a relational expression. -/
theorem Named.relational_flag {name : String} {value : Bool} {typed : Nat} {t w : List Char}
    (hw : Spacing w)
    (hl : Named name (Operator.presence.spelling.toList ++ w ++
      (flagSpelling value).toList.take typed) t)
    (hdrop : (flagSpelling value).toList.drop typed = []) :
    Relational t name (.presence value) := by
  obtain ⟨w₀, hp, hw₀, rfl⟩ := hl
  rw [List.take_of_length_le (List.drop_eq_nil_iff.1 hdrop)]
  simpa using (Relational.presence hp hw₀ hw : Relational _ name (.presence value))

/-- An expression finishes only outside all parentheses, as the chain completed by it. -/
theorem finishExpression_eq_ok {operand q : Query} {sc : Scope}
    (h : finishExpression operand sc = .ok q) : sc.depth = 0 ∧ q = sc.chain.complete operand := by
  unfold finishExpression at h
  split at h
  · next hd =>
    cases h
    exact ⟨hd, rfl⟩
  · cases h

namespace Viable

variable {limits : Limits}

/-- The reader starts at the root having read nothing. -/
theorem initial : Viable [] (.root 0) := .root Blanks.nil rfl

/-- After a complete expression, blanks keep it, a closing parenthesis completes the group
around it, and the first letter of a junction begins the keyword. The group closes one level
out, and the primary it makes ends the expression there. -/
theorem stepExpression {pre o e w : List Char} {n : Nat} {ts : List Token} {q : Query}
    {sc : Scope} {c : Char} {st' : State} (ho : Opening sc.depth o)
    (he : Spells .expression n e ts) (hw : Blanks w) (hsep : c = 'a' ∨ c = 'o' → Separator e w)
    (hpre : pre = o ++ e ++ w) (hlead : Lead pre)
    (h : SearchCriteria.stepExpression limits q sc c = .ok st') : Viable (pre ++ [c]) st' := by
  subst hpre
  unfold SearchCriteria.stepExpression at h
  split at h
  · next hc =>
    cases h
    exact .expression ho he (.inl (Spacing.of_blanks_snoc hw hc)) (by simp) (hlead.append _)
  · split at h
    · split at h
      · cases h
      · next hd =>
        cases h
        obtain ⟨d, hd'⟩ : ∃ d, sc.depth = d + 1 := ⟨sc.depth - 1, by omega⟩
        rw [hd'] at ho
        obtain ⟨b, p, us, hb, hp, heq, hclosed⟩ := ho.close he hw
        obtain ⟨o', e', n', ts', ho', he', heq', hclosed'⟩ := hb.close hp
        refine .expression (o := o') (w := []) ?_ he' (.inr ⟨rfl, hclosed' hclosed⟩) ?_
          (hlead.append _)
        · simpa [hd'] using ho'
        · rw [heq, heq', List.append_nil]
    · unfold deferJunction at h
      split at h
      · cases h
      · cases h
        exact .junctionWord ho he (hsep (.inl rfl)) rfl (hlead.append _)
    · unfold deferJunction at h
      split at h
      · cases h
      · cases h
        exact .junctionWord ho he (hsep (.inr rfl)) rfl (hlead.append _)
    · cases h

/-- Inside a relational expression, one character keeps a beginning: the expression goes on,
or it is complete and stands where the primary started. An expression completed by a double
quote needs nothing to separate it from a junction; a whole flag is read as an expression, which
no junction may follow directly. -/
theorem step_leaf {pre b t : List Char} {st st' : State} {c : Char} (hb : Begins st.scope.depth b)
    (hl : st.LeafPrefix t) (hpre : pre = b ++ t) (hlead : Lead pre)
    (h : st.step limits c = .ok st') : Viable (pre ++ [c]) st' := by
  subst hpre
  rcases hl.step h with ⟨hl', hsc⟩ | ⟨rfl, name, r, hrel, rfl⟩ | ⟨name, value, hrel, hna, hno, h⟩
  · exact .leaf (by rwa [hsc]) hl' (by simp) (hlead.append _)
  · obtain ⟨o, e, n, ts, ho, he, heq, hclosed⟩ := hb.close (.leaf hrel)
    exact .expression ho he (.inr ⟨rfl, hclosed (.inl List.getLast?_concat)⟩) (by simp [← heq])
      (hlead.append _)
  · obtain ⟨o, e, n, ts, ho, he, heq, -⟩ := hb.close (.leaf hrel)
    refine stepExpression ho he Blanks.nil ?_ (by simp [heq]) hlead h
    rintro (rfl | rfl)
    · exact absurd rfl hna
    · exact absurd rfl hno

/-- Every step of the reader keeps what it has read a beginning of the kind its state stands
for. -/
theorem step {pre : List Char} {st st' : State} {c : Char} (hv : Viable pre st)
    (h : st.step limits c = .ok st') : Viable (pre ++ [c]) st' := by
  cases hv with
  | root ho hnone =>
    simp only [State.step.eq_def] at h
    split at h
    · next hc =>
      cases h
      refine .root (ho.append_blanks (Blanks.singleton hc)) ?_
      rw [leadChar_append_of_eq_none hnone]
      simp [leadChar, hc]
    · next hc =>
      split at h
      · split at h
        · next hd =>
          cases h
          subst hd
          exact .wildcard ⟨pre, [], ho, Blanks.nil, rfl⟩
        · cases h
      · obtain ⟨d', hopen, h⟩ := ok_of_bind_eq_ok h
        cases h
        obtain ⟨-, rfl⟩ := openParenthesis_eq_ok.1 hopen
        refine .root (Begins.open (.inl ho)) ?_
        rw [leadChar_append_of_eq_none hnone]
        rfl
      · split at h <;> cases h
      · next hstar hopen hclose =>
        cases h
        have hc' : isBlank c = false := by simpa only [Bool.not_eq_true] using hc
        refine .leaf (b := pre) (t := [c]) (.inl ho) ⟨?_, by simp⟩ rfl
          ⟨c, leadChar_snoc_of_eq_none hnone hc' hopen, hstar⟩
        simpa using IsProperty.singleton hc' hopen hclose
  | wildcard hw =>
    simp only [State.step.eq_def] at h
    split at h
    · next hc =>
      cases h
      obtain ⟨w₁, w₂, hw₁, hw₂, rfl⟩ := hw
      exact .wildcard ⟨w₁, w₂ ++ [c], hw₁, hw₂.append (Blanks.singleton hc), by simp⟩
    · cases h
  | leaf hb hl hpre hlead => exact step_leaf hb hl hpre hlead h
  | expression ho he hsep hpre hlead =>
    exact stepExpression ho he hsep.blanks (fun _ => hsep) hpre hlead h
  | junctionWord ho he hsep hpre hlead =>
    subst hpre
    simp only [State.step.eq_def] at h
    obtain ⟨k, hk, h⟩ := ok_of_bind_eq_ok h
    cases k with
    | typed m =>
      cases h
      obtain ⟨rfl, htake⟩ := stepKeyword_eq_typed_take hk
      exact .junctionWord ho he hsep (by simp [htake]) (hlead.append _)
    | complete =>
      cases h
      obtain ⟨htake, hc⟩ := stepKeyword_eq_complete hk
      refine .joined ?_ (hlead.append _)
      rw [htake]
      exact ho.begins_junction he hsep (Spacing.singleton hc) _
  | joined hb hlead =>
    simp only [State.step.eq_def] at h
    split at h
    · next hc =>
      cases h
      exact .joined (hb.append_blanks (Blanks.singleton hc)) (hlead.append _)
    · next hc =>
      split at h
      · obtain ⟨d', hopen, h⟩ := ok_of_bind_eq_ok h
        cases h
        obtain ⟨-, rfl⟩ := openParenthesis_eq_ok.1 hopen
        exact .joined (.inl hb.open) (hlead.append _)
      · cases h
      · next hopen hclose =>
        cases h
        have hc' : isBlank c = false := by simpa only [Bool.not_eq_true] using hc
        refine .leaf (b := pre) (t := [c]) hb ⟨?_, by simp⟩ rfl (hlead.append _)
        simpa using IsProperty.singleton hc' hopen hclose

/-- Every run of the reader keeps what it has read a beginning of the kind its state stands
for. -/
theorem feed {pre cs : List Char} {st st' : State} (hv : Viable pre st)
    (h : st.feed limits cs = .ok st') : Viable (pre ++ cs) st' := by
  induction cs generalizing pre st with
  | nil =>
    cases h
    simpa using hv
  | cons c cs ih =>
    rw [State.feed_cons] at h
    obtain ⟨st₁, hstep, hrest⟩ := ok_of_bind_eq_ok h
    simpa using ih (hv.step hstep) hrest

/-- A reader that can finish has read the wildcard alone, or a whole expression between blanks
whose first property does not start with an asterisk. -/
theorem finish {pre : List Char} {st : State} {q : Query} (hv : Viable pre st)
    (h : st.finish = .ok q) :
    (q = .allResults ∧ WildcardText pre) ∨ (Lead pre ∧ ∃ n ts, Text n pre ts) := by
  cases hv with
  | root => cases h
  | wildcard hw =>
    cases h
    exact .inl ⟨rfl, hw⟩
  | leaf hb hl hpre hlead =>
    refine .inr ⟨hlead, ?_⟩
    cases st with
    | flag name value typed sc =>
      obtain ⟨w, hw, hl⟩ := hl
      simp only [State.finish] at h
      split at h
      · next hdrop =>
        obtain ⟨hdepth, -⟩ := finishExpression_eq_ok h
        obtain ⟨o, e, n, ts, ho, he, heq, -⟩ := hb.close (.leaf (hl.relational_flag hw hdrop))
        rw [show (State.flag name value typed sc).scope.depth = 0 from hdepth] at ho
        exact ⟨n, ts, o, e, [], ho, he, Blanks.nil, by simp [hpre, heq]⟩
      · cases h
    | symbol name start sc => cases start <;> cases h
    | root | wildcard | expression | junctionWord | joined => exact False.elim hl
    | property | awaitOperator | derivedOrDoesNot | operatorWord | awaitOperand | text =>
      cases h
  | expression ho he hsep hpre hlead =>
    obtain ⟨hdepth, -⟩ := finishExpression_eq_ok h
    rw [hdepth] at ho
    exact .inr ⟨hlead, _, _, _, _, _, ho, he, hsep.blanks, hpre⟩
  | junctionWord => cases h
  | joined => cases h

end Viable

/-- Text the reader accepts is the wildcard between blanks, read as every result, or an
expression of the grammar between blanks whose first property does not start with an
asterisk. -/
theorem Query.parse_sound {limits : Limits} {s : String} {q : Query}
    (h : Query.parse limits s = .ok q) :
    (q = .allResults ∧ WildcardText s.toList) ∨ (Lead s.toList ∧ ∃ n ts, Text n s.toList ts) := by
  rw [Query.parse_eq_feed] at h
  obtain ⟨st, hrun, hfinish⟩ := ok_of_bind_eq_ok h
  have hv : Viable s.toList st := by simpa using Viable.initial.feed hrun
  exact hv.finish hfinish

end SearchCriteria
