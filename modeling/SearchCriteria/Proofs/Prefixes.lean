import SearchCriteria.Reader.WellFormed
import SearchCriteria.Proofs.Grammar

/-!
# What a reader has read

The reader never looks back, so after every character what it has read must already begin a
text of the grammar. This module names those beginnings. `Opening d` is text after which an
expression starts inside `d` open parentheses, and `Begins d` text after which a primary starts;
a primary read where `Begins d` holds closes into an expression that starts after `Opening d`
(`Begins.close`). `State.LeafPrefix` is what a reader inside a relational expression has read of
it, and `State.LeafPrefix.step` says what one more character does there: the expression goes
on, or a double quote completes it, or after a complete flag the character is read as after an
expression.
-/

namespace SearchCriteria

/-- Text after which a primary starts, when its expression started after text that `opening`
holds of: that text alone, or followed by an expression, a separator, a junction keyword and
blanks. -/
def Continues (opening : List Char → Prop) (pre : List Char) : Prop :=
  opening pre ∨ ∃ (o e : List Char) (n : Nat) (ts : List Token) (sep : List Char) (j : Junction)
    (w : List Char), opening o ∧ Spells .expression n e ts ∧ Separator e sep ∧ Spacing w ∧
      pre = o ++ e ++ sep ++ j.keyword.toList ++ w

/-- Text after which an expression starts inside `d` open parentheses: blanks outside all
parentheses, and one level further in, text where a primary starts, the parenthesis and
blanks. -/
def Opening : Nat → List Char → Prop
  | 0, pre => Blanks pre
  | d + 1, pre => ∃ b w, Continues (Opening d) b ∧ Blanks w ∧ pre = b ++ '(' :: w

/-- Text after which a primary starts inside `d` open parentheses. -/
def Begins (d : Nat) (pre : List Char) : Prop := Continues (Opening d) pre

/-- Text that has begun a relational expression whose property does not start with an
asterisk. -/
def Lead (pre : List Char) : Prop := ∃ c, leadChar pre = some c ∧ c ≠ '*'

/-- A blank alone is a run of blanks. -/
theorem Blanks.singleton {c : Char} (hc : isBlank c = true) : Blanks [c] := by
  intro x hx
  rw [List.mem_singleton.1 hx]
  exact hc

/-- A blank alone is a spacing. -/
theorem Spacing.singleton {c : Char} (hc : isBlank c = true) : Spacing [c] :=
  ⟨by simp, Blanks.singleton hc⟩

/-- A spacing followed by blanks is a spacing. -/
theorem Spacing.append {w w' : List Char} (h : Spacing w) (h' : Blanks w') : Spacing (w ++ w') :=
  ⟨by simp [h.1], h.blanks.append h'⟩

/-- Blanks after the opening of a group keep it an opening. -/
theorem Opening.append_blanks {d : Nat} {o w : List Char} (ho : Opening d o) (hw : Blanks w) :
    Opening d (o ++ w) := by
  cases d with
  | zero => exact Blanks.append ho hw
  | succ d =>
    obtain ⟨b, w₀, hb, hw₀, rfl⟩ := ho
    exact ⟨b, w₀ ++ w, hb, hw₀.append hw, by simp⟩

/-- Blanks after a beginning of a primary keep it a beginning. -/
theorem Begins.append_blanks {d : Nat} {b w : List Char} (hb : Begins d b) (hw : Blanks w) :
    Begins d (b ++ w) := by
  rcases hb with ho | ⟨o, e, n, ts, sep, j, w₀, ho, he, hsep, hw₀, rfl⟩
  · exact .inl (ho.append_blanks hw)
  · exact .inr ⟨o, e, n, ts, sep, j, w₀ ++ w, ho, he, hsep, hw₀.append hw, by simp⟩

/-- An opening parenthesis where a primary starts opens an expression one level further in. -/
theorem Begins.open {d : Nat} {b : List Char} (hb : Begins d b) : Opening (d + 1) (b ++ ['(']) :=
  ⟨b, [], hb, Blanks.nil, by simp⟩

/-- After an expression, a separator, a junction keyword and blanks, a primary starts. -/
theorem Opening.begins_junction {d n : Nat} {o e sep w : List Char} {ts : List Token}
    (ho : Opening d o) (he : Spells .expression n e ts) (hsep : Separator e sep) (hw : Spacing w)
    (j : Junction) : Begins d (o ++ e ++ sep ++ j.keyword.toList ++ w) :=
  Or.inr ⟨o, e, n, ts, sep, j, w, ho, he, hsep, hw, rfl⟩

/-- A primary read where `Begins d` holds completes an expression that starts after
`Opening d`, and that expression ends as the primary does. -/
theorem Begins.close {d m : Nat} {b p : List Char} {us : List Token} (hb : Begins d b)
    (hp : Spells .primary m p us) :
    ∃ o e n ts, Opening d o ∧ Spells .expression n e ts ∧ b ++ p = o ++ e ∧
      (EndsClosed p → EndsClosed e) := by
  rcases hb with ho | ⟨o, e, n, ts, sep, j, w, ho, he, hsep, hw, rfl⟩
  · exact ⟨b, p, m, us, ho, .primary hp, rfl, id⟩
  · refine ⟨o, e ++ sep ++ j.keyword.toList ++ w ++ p, _, _, ho, .junction he hsep hw hp,
      by simp, ?_⟩
    exact (EndsClosed.append_iff hp.ne_nil _).2

/-- A closing parenthesis after an expression that started one level in completes a group, a
primary that starts one level out. -/
theorem Opening.close {d n : Nat} {o e w : List Char} {ts : List Token} (ho : Opening (d + 1) o)
    (he : Spells .expression n e ts) (hw : Blanks w) :
    ∃ b p us, Begins d b ∧ Spells .primary (n + 1) p us ∧ o ++ e ++ w ++ [')'] = b ++ p ∧
      EndsClosed p := by
  obtain ⟨b, w₀, hb, hw₀, rfl⟩ := ho
  exact ⟨b, _, _, hb, .group hw₀ he hw, by simp, .inr List.getLast?_concat⟩

/-- Once a text shows where its first property starts, text after it does not change that. -/
theorem leadChar_append_of_eq_some {pre : List Char} {c : Char} (h : leadChar pre = some c)
    (x : List Char) : leadChar (pre ++ x) = some c := by
  induction pre with
  | nil => simp [leadChar] at h
  | cons a pre ih =>
    by_cases ha : isBlank a = true ∨ a = '('
    · simp only [leadChar, if_pos ha] at h
      simpa only [List.cons_append, leadChar, if_pos ha] using ih h
    · simpa only [List.cons_append, leadChar, if_neg ha] using h

/-- Text of blanks and opening parentheses alone leaves the first property to the text after it. -/
theorem leadChar_append_of_eq_none {pre : List Char} (h : leadChar pre = none) (x : List Char) :
    leadChar (pre ++ x) = leadChar x := by
  induction pre with
  | nil => rfl
  | cons a pre ih =>
    by_cases ha : isBlank a = true ∨ a = '('
    · simp only [leadChar, if_pos ha] at h
      simpa only [List.cons_append, leadChar, if_pos ha] using ih h
    · rw [leadChar, if_neg ha] at h
      cases h

/-- Text that has begun a relational expression keeps its lead whatever follows. -/
theorem Lead.append {pre : List Char} (h : Lead pre) (x : List Char) : Lead (pre ++ x) := by
  obtain ⟨c, hc, hstar⟩ := h
  exact ⟨c, leadChar_append_of_eq_some hc x, hstar⟩

/-- A property extended by a character that is not blank is a property. -/
theorem IsProperty.snoc {p : List Char} {c : Char} (hp : IsProperty p) (hc : isBlank c = false) :
    IsProperty (p ++ [c]) := by
  obtain ⟨hne, hblank, hopen, hclose⟩ := hp
  obtain ⟨a, p, rfl⟩ := List.exists_cons_of_ne_nil hne
  refine ⟨by simp, ?_, by simpa using hopen, by simpa using hclose⟩
  intro x hx
  rcases List.mem_append.1 hx with hx | hx
  · exact hblank x hx
  · simp only [List.mem_singleton] at hx
    exact hx ▸ hc

/-- A body extended by a character that needs no escape stands for its text extended by that
character. -/
theorem QuotedBody.snoc_plain {b v : List Char} {c : Char} (h : QuotedBody b v)
    (hquote : c ≠ '"') (hslash : c ≠ '\\') : QuotedBody (b ++ [c]) (v ++ [c]) := by
  induction h with
  | nil => exact .plain hquote hslash .nil
  | plain h₁ h₂ _ ih => exact .plain h₁ h₂ ih
  | escape hc _ ih => exact .escape hc ih

/-- A body extended by an escaped double quote or backslash stands for its text extended by that
character. -/
theorem QuotedBody.snoc_escape {b v : List Char} {c : Char} (h : QuotedBody b v)
    (hc : c = '"' ∨ c = '\\') : QuotedBody (b ++ ['\\', c]) (v ++ [c]) := by
  induction h with
  | nil => exact .escape hc .nil
  | plain h₁ h₂ _ ih => exact .plain h₁ h₂ ih
  | escape hc' _ ih => exact .escape hc' ih

/-- Text that is the property `name`, blanks, and then `rest`. -/
def Named (name : String) (rest t : List Char) : Prop :=
  ∃ w, IsProperty name.toList ∧ Spacing w ∧ t = name.toList ++ w ++ rest

/-- Text after a property and blanks extends by one character with the rest after them. -/
theorem Named.snoc {name : String} {rest rest' t : List Char} {c : Char} (h : Named name rest t)
    (hrest : rest' = rest ++ [c]) : Named name rest' (t ++ [c]) := by
  obtain ⟨w, hp, hw, rfl⟩ := h
  exact ⟨w, hp, hw, by simp [hrest]⟩

/-- One more blank after a property and blanks lengthens the blanks. -/
theorem Named.blank {name : String} {t : List Char} {c : Char} (h : Named name [] t)
    (hc : isBlank c = true) : Named name [] (t ++ [c]) := by
  obtain ⟨w, hp, hw, rfl⟩ := h
  exact ⟨w ++ [c], hp, hw.append (Blanks.singleton hc), by simp⟩

/-- A text operator is spelled as its own spelling. -/
@[simp] theorem Operator.spelling_text (op : TextOperator) :
    (Operator.text op).spelling = op.spelling := rfl

/-- Reading a keyword's next character extends what is read of it by that character. -/
theorem stepKeyword_eq_typed_take {word : String} {typed n : Nat} {c : Char}
    (h : stepKeyword word typed c = .ok (.typed n)) :
    n = typed + 1 ∧ word.toList.take n = word.toList.take typed ++ [c] := by
  unfold stepKeyword at h
  split at h
  · split at h <;> cases h
  · next d rest hdrop =>
    split at h
    · next hc =>
      cases h
      subst hc
      refine ⟨rfl, ?_⟩
      rw [List.take_add_one, ← List.head?_drop, hdrop]
      rfl
    · split at h <;> cases h

/-- A keyword completes only once it is read whole, and only at a blank. -/
theorem stepKeyword_eq_complete {word : String} {typed : Nat} {c : Char}
    (h : stepKeyword word typed c = .ok .complete) :
    word.toList.take typed = word.toList ∧ isBlank c = true := by
  unfold stepKeyword at h
  split at h
  · next hdrop =>
    split at h
    · next hc => exact ⟨List.take_of_length_le (List.drop_eq_nil_iff.1 hdrop), hc⟩
    · cases h
  · split at h
    · cases h
    · split at h <;> cases h

/-- The character a symbol start stands for. -/
def SymbolStart.char : SymbolStart → Char
  | .bang => '!'
  | .less => '<'
  | .greater => '>'

namespace State

/-- The scope a state records; before the first expression, the open parentheses alone. -/
def scope : State → Scope
  | root depth => { depth }
  | wildcard => {}
  | property _ sc | awaitOperator _ sc | symbol _ _ sc | derivedOrDoesNot _ sc
  | operatorWord _ _ _ sc | awaitOperand _ _ _ sc | text _ _ _ _ sc | flag _ _ _ sc
  | expression _ sc | junctionWord _ _ sc | joined _ sc => sc

/-- What a reader inside a relational expression has read of it, by state: the property, and
after blanks as much of the operator and operand as the state records. -/
def LeafPrefix : State → List Char → Prop
  | property token _, t => IsProperty token.toList ∧ t = token.toList
  | awaitOperator name _, t => Named name [] t
  | symbol name start _, t => Named name [start.char] t
  | derivedOrDoesNot name _, t => Named name ['d'] t
  | operatorWord name word typed _, t => Named name (word.spelling.toList.take typed) t
  | awaitOperand name op spaced _, t => ∃ w, Blanks w ∧ (spaced = true ↔ w ≠ []) ∧
      Named name (op.spelling.toList ++ w) t
  | text name op content escaped _, t => ∃ w b, Spacing w ∧ QuotedBody b content.toList ∧
      Named name (op.spelling.toList ++ w ++ '"' :: b ++ if escaped then ['\\'] else []) t
  | flag name value typed _, t => ∃ w, Spacing w ∧
      Named name (Operator.presence.spelling.toList ++ w ++ (flagSpelling value).toList.take typed) t
  | _, _ => False

variable {limits : Limits}

/-- Inside a property, a blank ends it and anything else extends it. -/
theorem LeafPrefix.step_property {token : String} {sc : Scope} {st' : State} {c : Char}
    (hp : IsProperty token.toList) (h : (property token sc).step limits c = .ok st') :
    st'.LeafPrefix (token.toList ++ [c]) ∧ st'.scope = sc := by
  simp only [State.step.eq_def] at h
  split at h
  · next hc =>
    cases h
    exact ⟨⟨[c], hp, Spacing.singleton hc, by simp⟩, rfl⟩
  · next hc =>
    cases h
    refine ⟨⟨?_, by simp⟩, rfl⟩
    rw [String.toList_push]
    exact hp.snoc (by simpa only [Bool.not_eq_true] using hc)

/-- After a property and blanks, more blanks or the first character of an operator. -/
theorem LeafPrefix.step_awaitOperator {name : String} {sc : Scope} {st' : State}
    {t : List Char} {c : Char} (hl : Named name [] t)
    (h : (awaitOperator name sc).step limits c = .ok st') :
    st'.LeafPrefix (t ++ [c]) ∧ st'.scope = sc := by
  simp only [State.step.eq_def] at h
  split at h
  · next hc =>
    cases h
    exact ⟨hl.blank hc, rfl⟩
  · split at h <;> cases h
    case h_1 => exact ⟨⟨[], Blanks.nil, by simp, hl.snoc rfl⟩, rfl⟩
    all_goals exact ⟨hl.snoc rfl, rfl⟩

/-- After a symbol start, an equals sign completes the operator, and a blank ends it alone
unless it is an exclamation mark. -/
theorem LeafPrefix.step_symbol {name : String} {start : SymbolStart} {sc : Scope} {st' : State}
    {t : List Char} {c : Char} (hl : Named name [start.char] t)
    (h : (symbol name start sc).step limits c = .ok st') :
    st'.LeafPrefix (t ++ [c]) ∧ st'.scope = sc := by
  simp only [State.step.eq_def] at h
  split at h
  · next hc =>
    cases h
    subst hc
    exact ⟨⟨[], Blanks.nil, by simp, hl.snoc (by cases start <;> rfl)⟩, rfl⟩
  · split at h
    · cases h
    · next hbang =>
      split at h
      · next hc =>
        cases h
        refine ⟨⟨[c], Blanks.singleton hc, by simp, hl.snoc ?_⟩, rfl⟩
        cases start
        · exact absurd rfl hbang
        · rfl
        · rfl
      · cases h

/-- After the letter d, the second letter chooses derivedFrom or doesNotContain. -/
theorem LeafPrefix.step_derivedOrDoesNot {name : String} {sc : Scope} {st' : State}
    {t : List Char} {c : Char} (hl : Named name ['d'] t)
    (h : (derivedOrDoesNot name sc).step limits c = .ok st') :
    st'.LeafPrefix (t ++ [c]) ∧ st'.scope = sc := by
  simp only [State.step.eq_def] at h
  split at h
  · cases h
    exact ⟨hl.snoc rfl, rfl⟩
  · cases h
    exact ⟨hl.snoc rfl, rfl⟩
  · split at h <;> cases h

/-- Inside an operator word, its next letter goes on and a blank after it whole completes it. -/
theorem LeafPrefix.step_operatorWord {name : String} {word : WordOperator} {typed : Nat}
    {sc : Scope} {st' : State} {t : List Char} {c : Char}
    (hl : Named name (word.spelling.toList.take typed) t)
    (h : (operatorWord name word typed sc).step limits c = .ok st') :
    st'.LeafPrefix (t ++ [c]) ∧ st'.scope = sc := by
  simp only [State.step.eq_def] at h
  obtain ⟨k, hk, h⟩ := ok_of_bind_eq_ok h
  cases k with
  | typed n =>
    cases h
    obtain ⟨rfl, htake⟩ := stepKeyword_eq_typed_take hk
    exact ⟨hl.snoc htake, rfl⟩
  | complete =>
    cases h
    obtain ⟨htake, hc⟩ := stepKeyword_eq_complete hk
    refine ⟨⟨[c], Blanks.singleton hc, by simp, hl.snoc ?_⟩, rfl⟩
    rw [htake]
    rfl

/-- After an operator, blanks, and once a blank has come, the operand's first character. The
operand starts only after a blank, so the blanks before it are a spacing. -/
theorem LeafPrefix.step_awaitOperand {name : String} {op : Operator} {spaced : Bool} {sc : Scope}
    {st' : State} {t w : List Char} {c : Char} (hw : Blanks w) (hspaced : spaced = true ↔ w ≠ [])
    (hl : Named name (op.spelling.toList ++ w) t)
    (h : (awaitOperand name op spaced sc).step limits c = .ok st') :
    st'.LeafPrefix (t ++ [c]) ∧ st'.scope = sc := by
  simp only [State.step.eq_def] at h
  split at h
  · next hc =>
    cases h
    exact ⟨⟨w ++ [c], hw.append (Blanks.singleton hc), by simp, hl.snoc (by simp)⟩, rfl⟩
  · split at h
    · cases h
    · next hspace =>
      have hsp : Spacing w := ⟨hspaced.1 (by simpa using hspace), hw⟩
      split at h
      · split at h
        · next ht =>
          cases h
          subst ht
          exact ⟨⟨w, hsp, hl.snoc rfl⟩, rfl⟩
        · split at h
          · next hf =>
            cases h
            subst hf
            exact ⟨⟨w, hsp, hl.snoc rfl⟩, rfl⟩
          · cases h
      · split at h
        · next hquote =>
          cases h
          subst hquote
          exact ⟨⟨w, [], hsp, .nil, hl.snoc (by simp)⟩, rfl⟩
        · cases h

/-- Inside a double-quoted operand, a character goes into the body, a backslash escapes the next
one, and an unescaped double quote completes the relational expression. -/
theorem LeafPrefix.step_text {name : String} {op : TextOperator} {content : String}
    {escaped : Bool} {sc : Scope} {st' : State} {t w b : List Char} {c : Char} (hw : Spacing w)
    (hb : QuotedBody b content.toList)
    (hl : Named name (op.spelling.toList ++ w ++ '"' :: b ++ if escaped then ['\\'] else []) t)
    (h : (text name op content escaped sc).step limits c = .ok st') :
    (st'.LeafPrefix (t ++ [c]) ∧ st'.scope = sc) ∨
      (c = '"' ∧ Relational (t ++ [c]) name (.text op content) ∧
        st' = .expression (.relational name (.text op content)) sc) := by
  simp only [State.step.eq_def] at h
  split at h
  · next hesc =>
    subst hesc
    split at h
    · next hc =>
      cases h
      refine .inl ⟨⟨w, b ++ ['\\', c], hw, ?_, hl.snoc (by simp)⟩, rfl⟩
      rw [String.toList_push]
      exact hb.snoc_escape hc.symm
    · cases h
  · next hesc =>
    split at h
    · next hslash =>
      cases h
      subst hslash
      exact .inl ⟨⟨w, b, hw, hb, hl.snoc (by simp [hesc])⟩, rfl⟩
    · next hslash =>
      split at h
      · next hquote =>
        cases h
        subst hquote
        refine .inr ⟨rfl, ?_, rfl⟩
        obtain ⟨w₀, hp, hw₀, rfl⟩ := hl
        simpa [hesc] using (Relational.text hp hw₀ hw hb : Relational _ name (.text op content))
      · next hquote =>
        cases h
        refine .inl ⟨⟨w, b ++ [c], hw, ?_, hl.snoc (by simp [hesc])⟩, rfl⟩
        rw [String.toList_push]
        exact hb.snoc_plain hquote hslash

/-- Inside the flag of exists, its next letter goes on; once the flag is whole, the character is
read as after an expression, and only a blank or a parenthesis may come. -/
theorem LeafPrefix.step_flag {name : String} {value : Bool} {typed : Nat} {sc : Scope}
    {st' : State} {t w : List Char} {c : Char} (hw : Spacing w)
    (hl : Named name (Operator.presence.spelling.toList ++ w ++
      (flagSpelling value).toList.take typed) t)
    (h : (flag name value typed sc).step limits c = .ok st') :
    (st'.LeafPrefix (t ++ [c]) ∧ st'.scope = sc) ∨
      (Relational t name (.presence value) ∧ c ≠ 'a' ∧ c ≠ 'o' ∧
        stepExpression limits (.relational name (.presence value)) sc c = .ok st') := by
  simp only [State.step.eq_def] at h
  split at h
  · next hdrop =>
    split at h
    · next hc =>
      refine .inr ⟨?_, ?_, ?_, h⟩
      · obtain ⟨w₀, hp, hw₀, rfl⟩ := hl
        rw [List.take_of_length_le (List.drop_eq_nil_iff.1 hdrop)]
        simpa using (Relational.presence hp hw₀ hw : Relational _ name (.presence value))
      · rintro rfl
        exact absurd hc (by decide)
      · rintro rfl
        exact absurd hc (by decide)
    · cases h
  · next d rest hdrop =>
    split at h
    · next hc =>
      cases h
      subst hc
      refine .inl ⟨⟨w, hw, hl.snoc ?_⟩, rfl⟩
      rw [List.take_add_one, ← List.head?_drop, hdrop]
      simp
    · cases h

/-- One character inside a relational expression: the expression goes on in the same scope, or
a double quote completes it, or after a complete flag the character is read as after an
expression. -/
theorem LeafPrefix.step {st st' : State} {t : List Char} {c : Char} (hl : st.LeafPrefix t)
    (h : st.step limits c = .ok st') :
    (st'.LeafPrefix (t ++ [c]) ∧ st'.scope = st.scope) ∨
    (c = '"' ∧ ∃ name r, Relational (t ++ [c]) name r ∧
      st' = .expression (.relational name r) st.scope) ∨
    (∃ name value, Relational t name (.presence value) ∧ c ≠ 'a' ∧ c ≠ 'o' ∧
      stepExpression limits (.relational name (.presence value)) st.scope c = .ok st') := by
  cases st with
  | property token sc =>
    obtain ⟨hp, rfl⟩ := hl
    exact .inl (step_property hp h)
  | awaitOperator name sc => exact .inl (step_awaitOperator hl h)
  | symbol name start sc => exact .inl (step_symbol hl h)
  | derivedOrDoesNot name sc => exact .inl (step_derivedOrDoesNot hl h)
  | operatorWord name word typed sc => exact .inl (step_operatorWord hl h)
  | awaitOperand name op spaced sc =>
    obtain ⟨w, hw, hspaced, hl⟩ := hl
    exact .inl (step_awaitOperand hw hspaced hl h)
  | text name op content escaped sc =>
    obtain ⟨w, b, hw, hb, hl⟩ := hl
    rcases step_text hw hb hl h with hgo | ⟨hquote, hrel, rfl⟩
    · exact .inl hgo
    · exact .inr (.inl ⟨hquote, name, _, hrel, rfl⟩)
  | flag name value typed sc =>
    obtain ⟨w, hw, hl⟩ := hl
    rcases step_flag hw hl h with hgo | hend
    · exact .inl hgo
    · exact .inr (.inr ⟨name, value, hend⟩)
  | root | wildcard | expression | junctionWord | joined => exact False.elim hl

end State

end SearchCriteria
