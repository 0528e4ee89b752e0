import SearchCriteria.Reader.WellFormed
import SearchCriteria.Proofs.Grammar

/-!
# Runs of the reader over pieces of criteria text

A run of the reader over a piece of text is a fold of `State.step`. This file computes the runs
over the pieces the grammar is made of: blanks, the characters of a property, a keyword, a
double-quoted operand, a flag, and a whole relational expression (`State.feed_relational`),
which ends in the state `leafEnd` whatever comes after it. The completeness of the reader is
assembled from these runs.
-/

namespace SearchCriteria

/-- Dropping all of a string's characters leaves none. -/
@[simp] theorem drop_length_toList (s : String) : s.toList.drop s.length = [] := by
  rw [← String.length_toList]
  exact List.drop_length

namespace State

variable {limits : Limits}

/-- Feeding no character leaves the state as it is. -/
@[simp] theorem feed_nil (st : State) : st.feed limits [] = .ok st := rfl

/-- A run steps on the first character and feeds the rest to the state it reaches. -/
theorem feed_cons (st : State) (c : Char) (cs : List Char) :
    st.feed limits (c :: cs) = (st.step limits c >>= fun st' => st'.feed limits cs) := rfl

/-- A run over two texts is the run over the first, then the run over the second. -/
theorem feed_append (st : State) (cs ds : List Char) :
    st.feed limits (cs ++ ds) = (st.feed limits cs >>= fun st' => st'.feed limits ds) := by
  simp [feed, List.foldlM_append]

/-- A step that succeeds passes the run on to the next state. -/
theorem feed_cons_of_step {st st' : State} {c : Char} (h : st.step limits c = .ok st')
    (cs : List Char) : st.feed limits (c :: cs) = st'.feed limits cs := by
  rw [feed_cons, h]
  rfl

/-- A run that succeeds on a prefix passes the rest on. -/
theorem feed_append_of_feed {st st' : State} {cs : List Char} (h : st.feed limits cs = .ok st')
    (ds : List Char) : st.feed limits (cs ++ ds) = st'.feed limits ds := by
  rw [feed_append, h]
  rfl

/-- A run that fails on a prefix fails on the whole text. -/
theorem feed_append_of_error {st : State} {cs : List Char} {err : ParseError}
    (h : st.feed limits cs = .error err) (ds : List Char) :
    st.feed limits (cs ++ ds) = .error err := by
  rw [feed_append, h]
  rfl

/-- A state that every blank leaves in place stays over a run of blanks. -/
theorem feed_blanks_of_step {st : State} (hstep : ∀ c, isBlank c = true → st.step limits c = .ok st)
    {w : List Char} (hw : Blanks w) : st.feed limits w = .ok st := by
  induction w with
  | nil => rfl
  | cons c w ih =>
    rw [feed_cons_of_step (hstep c (hw c (by simp)))]
    exact ih (fun d hd => hw d (by simp [hd]))

/-- Blanks before the first expression leave the root state in place. -/
theorem feed_blanks_root (d : Nat) {w : List Char} (hw : Blanks w) :
    (root d).feed limits w = .ok (root d) :=
  feed_blanks_of_step (fun c hc => by simp [State.step.eq_def, hc]) hw

/-- Blanks after the wildcard leave it in place. -/
theorem feed_blanks_wildcard {w : List Char} (hw : Blanks w) :
    wildcard.feed limits w = .ok wildcard :=
  feed_blanks_of_step (fun c hc => by simp [State.step.eq_def, hc]) hw

/-- Blanks between a property and its operator leave the reader waiting for the operator. -/
theorem feed_blanks_awaitOperator (name : String) (sc : Scope) {w : List Char} (hw : Blanks w) :
    (awaitOperator name sc).feed limits w = .ok (awaitOperator name sc) :=
  feed_blanks_of_step (fun c hc => by simp [State.step.eq_def, hc]) hw

/-- Blanks after a spaced operator leave the reader waiting for the operand. -/
theorem feed_blanks_awaitOperand (name : String) (op : Operator) (sc : Scope) {w : List Char}
    (hw : Blanks w) : (awaitOperand name op true sc).feed limits w = .ok (awaitOperand name op true sc) :=
  feed_blanks_of_step (fun c hc => by simp [State.step.eq_def, hc]) hw

/-- Blanks after a complete expression leave it in place. -/
theorem feed_blanks_expression (e : Query) (sc : Scope) {w : List Char} (hw : Blanks w) :
    (expression e sc).feed limits w = .ok (expression e sc) :=
  feed_blanks_of_step (fun c hc => by simp [State.step.eq_def, stepExpression, hc]) hw

/-- Blanks after a junction keyword leave the reader waiting for the right operand. -/
theorem feed_blanks_joined (j : Junction) (sc : Scope) {w : List Char} (hw : Blanks w) :
    (joined j sc).feed limits w = .ok (joined j sc) :=
  feed_blanks_of_step (fun c hc => by simp [State.step.eq_def, hc]) hw

/-- The characters of a property, none of them blank, extend the property read so far. -/
theorem feed_property {tok p : String} {cs : List Char} (hcs : ∀ c ∈ cs, isBlank c = false)
    (hp : p.toList = tok.toList ++ cs) (sc : Scope) :
    (property tok sc).feed limits cs = .ok (property p sc) := by
  induction cs generalizing tok with
  | nil =>
    rw [List.append_nil, String.toList_inj] at hp
    rw [hp]
    rfl
  | cons c cs ih =>
    have hc : isBlank c = false := hcs c (by simp)
    have hstep : (property tok sc).step limits c = .ok (property (tok.push c) sc) := by
      simp [State.step.eq_def, hc]
    rw [feed_cons_of_step hstep]
    exact ih (fun d hd => hcs d (by simp [hd])) (by simp [hp])

/-- A keyword's next character moves it on by one. -/
theorem stepKeyword_of_drop {word : String} {typed : Nat} {d : Char} {rest : List Char}
    (h : word.toList.drop typed = d :: rest) : stepKeyword word typed d = .ok (.typed (typed + 1)) := by
  simp [stepKeyword, h]

/-- A blank after a whole keyword completes it. -/
theorem stepKeyword_length {word : String} {c : Char} (hc : isBlank c = true) :
    stepKeyword word word.length c = .ok .complete := by
  simp [stepKeyword, hc]

/-- The rest of a keyword, then a blank, takes a keyword state of the reader to the state after
the keyword. The operator words and the junction keywords both step this way. By induction on
what is left of the keyword. -/
theorem feed_keyword (mk : Nat → State) {word : String} {next : State}
    (hstep : ∀ t c, (mk t).step limits c =
      (stepKeyword word t c >>= fun k => match k with
        | .typed n => pure (mk n)
        | .complete => pure next))
    {typed : Nat} (htyped : typed ≤ word.length) {c : Char} (hc : isBlank c = true) :
    (mk typed).feed limits (word.toList.drop typed ++ [c]) = .ok next := by
  generalize hrest : word.toList.drop typed = rest
  induction rest generalizing typed with
  | nil =>
    have htyped' : typed = word.length := by
      have := congrArg List.length hrest
      simp only [List.length_drop, String.length_toList, List.length_nil] at this
      omega
    subst htyped'
    rw [List.nil_append, feed_cons_of_step (by rw [hstep, stepKeyword_length hc]; rfl)]
    rfl
  | cons d rest ih =>
    have hlt : typed < word.length := by
      have := congrArg List.length hrest
      simp only [List.length_drop, String.length_toList, List.length_cons] at this
      omega
    have hnext : word.toList.drop (typed + 1) = rest := by
      rw [← List.drop_drop, hrest]
      rfl
    rw [List.cons_append, feed_cons_of_step (by rw [hstep, stepKeyword_of_drop hrest]; rfl)]
    exact ih hlt hnext

/-- The rest of an operator word, then a blank, completes the operator. -/
theorem feed_operatorWord (name : String) (word : WordOperator) (sc : Scope) {typed : Nat}
    (htyped : typed ≤ word.spelling.length) {c : Char} (hc : isBlank c = true) :
    (operatorWord name word typed sc).feed limits (word.spelling.toList.drop typed ++ [c]) =
      .ok (awaitOperand name word.operator true sc) :=
  feed_keyword (fun t => operatorWord name word t sc) (fun _ _ => rfl) htyped hc

/-- The rest of a junction keyword, then a blank, completes the junction. -/
theorem feed_junctionWord (j : Junction) (sc : Scope) {typed : Nat}
    (htyped : typed ≤ j.keyword.length) {c : Char} (hc : isBlank c = true) :
    (junctionWord j typed sc).feed limits (j.keyword.toList.drop typed ++ [c]) =
      .ok (joined j sc) :=
  feed_keyword (fun t => junctionWord j t sc) (fun _ _ => rfl) htyped hc

/-- A run that ends in a state from which the next character steps on. -/
theorem feed_snoc_of_step {st st' st'' : State} {cs : List Char} {c : Char}
    (h : st.feed limits cs = .ok st') (hstep : st'.step limits c = .ok st'') :
    st.feed limits (cs ++ [c]) = .ok st'' := by
  rw [feed_append_of_feed h, feed_cons_of_step hstep]
  rfl

/-- An operator, then a blank, leaves the reader waiting for the operand. A symbol is complete
after its characters and the blank after it is the spacing; a word is matched letter by letter
once its first letters have picked it. -/
theorem feed_operator (name : String) (sc : Scope) (op : Operator) {c : Char}
    (hc : isBlank c = true) :
    (awaitOperator name sc).feed limits (op.spelling.toList ++ [c]) =
      .ok (awaitOperand name op true sc) := by
  have hne : c ≠ '=' := by
    rintro rfl
    simp [isBlank, blanks] at hc
  have hspaced : ∀ op, (awaitOperand name op false sc).step limits c =
      .ok (awaitOperand name op true sc) := by
    intro op
    simp [State.step.eq_def, hc]
  have halone : ∀ start, start ≠ .bang → (symbol name start sc).step limits c =
      .ok (awaitOperand name (.text start.alone) true sc) := by
    intro start hstart
    simp [State.step.eq_def, hc, hne, hstart]
  have hword : ∀ (w : WordOperator) (k : Nat), k ≤ w.spelling.length →
      (awaitOperator name sc).feed limits (w.spelling.toList.take k) =
        .ok (operatorWord name w k sc) →
      (awaitOperator name sc).feed limits (w.spelling.toList ++ [c]) =
        .ok (awaitOperand name w.operator true sc) := by
    intro w k hk hfeed
    rw [← List.take_append_drop k w.spelling.toList, List.append_assoc,
      feed_append_of_feed hfeed]
    exact feed_operatorWord name w sc hk hc
  cases op with
  | presence => exact hword .presence 1 (by decide) rfl
  | text op =>
    cases op with
    | equals =>
      exact feed_snoc_of_step rfl (hspaced (.text .equals))
    | notEquals =>
      exact feed_snoc_of_step rfl (hspaced (.text .notEquals))
    | lessThan => exact feed_snoc_of_step rfl (halone .less (by decide))
    | lessOrEqual =>
      exact feed_snoc_of_step rfl (hspaced (.text .lessOrEqual))
    | greaterThan =>
      exact feed_snoc_of_step rfl (halone .greater (by decide))
    | greaterOrEqual =>
      exact feed_snoc_of_step rfl (hspaced (.text .greaterOrEqual))
    | contains => exact hword .contains 1 (by decide) rfl
    | doesNotContain => exact hword .doesNotContain 2 (by decide) rfl
    | derivedFrom => exact hword .derivedFrom 2 (by decide) rfl

/-- A double quote after an operator and its blank opens the operand. -/
theorem step_awaitOperand_quote (name : String) (op : TextOperator) (sc : Scope) :
    (awaitOperand name (.text op) true sc).step limits '"' = .ok (text name op "" false sc) := by
  simp [State.step.eq_def, isBlank, blanks]

/-- An unescaped double quote closes the operand with the text read so far. -/
theorem step_text_quote (name : String) (op : TextOperator) (content : String) (sc : Scope) :
    (text name op content false sc).step limits '"' =
      .ok (expression (.relational name (.text op content)) sc) := by
  simp [State.step.eq_def]

/-- An unescaped backslash makes the next character an escape. -/
theorem step_text_backslash (name : String) (op : TextOperator) (content : String) (sc : Scope) :
    (text name op content false sc).step limits '\\' = .ok (text name op content true sc) := by
  simp [State.step.eq_def]

/-- After a backslash, a double quote or a backslash goes into the operand as itself. -/
theorem step_text_escaped {c : Char} (hc : c = '"' ∨ c = '\\') (name : String) (op : TextOperator)
    (content : String) (sc : Scope) :
    (text name op content true sc).step limits c = .ok (text name op (content.push c) false sc) := by
  simp [State.step.eq_def, hc, Or.comm]

/-- The body of a double-quoted operand adds the text it stands for to the operand so far. -/
theorem feed_quotedBody {b v : List Char} (hb : QuotedBody b v) (name : String) (op : TextOperator)
    (sc : Scope) {content content' : String} (hv : content'.toList = content.toList ++ v) :
    (text name op content false sc).feed limits b = .ok (text name op content' false sc) := by
  induction hb generalizing content with
  | nil =>
    rw [List.append_nil, String.toList_inj] at hv
    rw [hv]
    rfl
  | @plain c b v hquote hslash _ ih =>
    have hstep : (text name op content false sc).step limits c =
        .ok (text name op (content.push c) false sc) := by
      simp [State.step.eq_def, hquote, hslash]
    rw [feed_cons_of_step hstep]
    exact ih (by simp [hv])
  | @escape c b v hc _ ih =>
    rw [feed_cons_of_step (step_text_backslash name op content sc),
      feed_cons_of_step (step_text_escaped hc name op content sc)]
    exact ih (by simp [hv])

/-- The rest of a flag's letters completes the flag. -/
theorem feed_flag (name : String) (value : Bool) (sc : Scope) {typed : Nat}
    (htyped : typed ≤ (flagSpelling value).length) :
    (flag name value typed sc).feed limits ((flagSpelling value).toList.drop typed) =
      .ok (flag name value (flagSpelling value).length sc) := by
  generalize hrest : (flagSpelling value).toList.drop typed = rest
  induction rest generalizing typed with
  | nil =>
    have htyped' : typed = (flagSpelling value).length := by
      have := congrArg List.length hrest
      simp only [List.length_drop, String.length_toList, List.length_nil] at this
      omega
    rw [htyped']
    rfl
  | cons d rest ih =>
    have hlt : typed < (flagSpelling value).length := by
      have := congrArg List.length hrest
      simp only [List.length_drop, String.length_toList, List.length_cons] at this
      omega
    have hnext : (flagSpelling value).toList.drop (typed + 1) = rest := by
      rw [← List.drop_drop, hrest]
      rfl
    have hstep : (flag name value typed sc).step limits d = .ok (flag name value (typed + 1) sc) := by
      simp [State.step.eq_def, hrest]
    rw [feed_cons_of_step hstep]
    exact ih hlt hnext

end State

/-- The state right after a relational expression: a double-quoted operand is closed, and a
flag waits for the character that must follow it. -/
def leafEnd (p : String) (r : Relation) (sc : Scope) : State :=
  match r with
  | .text op v => .expression (.relational p (.text op v)) sc
  | .presence value => .flag p value (flagSpelling value).length sc

namespace State

variable {limits : Limits}

variable (limits) in
/-- After its first character, the rest of a relational expression takes the property state to
`leafEnd`. The run goes through the property, the blanks, the operator and then the operand; the
first letter of a flag picks its value and the others follow it. -/
theorem feed_relational {s : List Char} {p : String} {r : Relation} (h : Relational s p r) :
    ∃ c t, s = c :: t ∧ p.toList.head? = some c ∧
      ∀ sc, (property c.toString sc).feed limits t = .ok (leafEnd p r sc) := by
  have hhead : ∀ (w₁ : List Char) (op : Operator) (w₂ rest : List Char),
      IsProperty p.toList → Spacing w₁ → Spacing w₂ →
      ∃ c t, p.toList ++ w₁ ++ op.spelling.toList ++ w₂ ++ rest = c :: t ∧
        p.toList.head? = some c ∧
        ∀ sc, (property c.toString sc).feed limits t =
          (awaitOperand p op true sc).feed limits rest := by
    intro w₁ op w₂ rest hp hw₁ hw₂
    obtain ⟨hne, hblank, -, -⟩ := hp
    obtain ⟨c, cs, hcs⟩ := List.exists_cons_of_ne_nil hne
    obtain ⟨b₁, w₁, rfl⟩ := List.exists_cons_of_ne_nil hw₁.1
    obtain ⟨b₂, w₂, rfl⟩ := List.exists_cons_of_ne_nil hw₂.1
    have hb₁ : isBlank b₁ = true := hw₁.blanks b₁ (by simp)
    have hb₂ : isBlank b₂ = true := hw₂.blanks b₂ (by simp)
    refine ⟨c, cs ++ b₁ :: w₁ ++ op.spelling.toList ++ b₂ :: w₂ ++ rest, by simp [hcs], by simp [hcs],
      fun sc => ?_⟩
    have hprop : (property c.toString sc).feed limits cs = .ok (property p sc) :=
      feed_property (fun d hd => hblank d (by simp [hcs, hd])) (by simp [hcs]) sc
    have hspace : (property p sc).step limits b₁ = .ok (awaitOperator p sc) := by
      simp [State.step.eq_def, hb₁]
    have hop : (awaitOperator p sc).feed limits (op.spelling.toList ++ [b₂]) =
        .ok (awaitOperand p op true sc) := feed_operator p sc op hb₂
    have hrest : (awaitOperand p op true sc).feed limits w₂ = .ok (awaitOperand p op true sc) :=
      feed_blanks_awaitOperand p op sc (fun d hd => hw₂.blanks d (by simp [hd]))
    simp only [List.append_assoc, List.cons_append]
    rw [feed_append_of_feed hprop, feed_cons_of_step hspace,
      feed_append_of_feed (feed_blanks_awaitOperator p sc (fun d hd => hw₁.blanks d (by simp [hd]))),
      show op.spelling.toList ++ b₂ :: (w₂ ++ rest) = op.spelling.toList ++ [b₂] ++ (w₂ ++ rest)
        by simp, feed_append_of_feed hop, feed_append_of_feed hrest]
  cases h with
  | @text p op v w₁ w₂ b hp hw₁ hw₂ hb =>
    obtain ⟨c, t, hct, hc, hrun⟩ := hhead w₁ (.text op) w₂ ('"' :: b ++ ['"']) hp hw₁ hw₂
    refine ⟨c, t, by simpa [Operator.spelling] using hct, hc, fun sc => ?_⟩
    rw [hrun sc]
    have hbody : (text p op "" false sc).feed limits b = .ok (text p op v false sc) :=
      feed_quotedBody hb p op sc (by simp)
    rw [List.cons_append, feed_cons_of_step (step_awaitOperand_quote p op sc),
      feed_append_of_feed hbody, feed_cons_of_step (step_text_quote p op v sc)]
    rfl
  | @presence p value w₁ w₂ hp hw₁ hw₂ =>
    obtain ⟨c, t, hct, hc, hrun⟩ := hhead w₁ .presence w₂ (flagSpelling value).toList hp hw₁ hw₂
    refine ⟨c, t, hct, hc, fun sc => ?_⟩
    rw [hrun sc]
    have hfirst : ∃ d, (flagSpelling value).toList = d :: (flagSpelling value).toList.drop 1 ∧
        (awaitOperand p .presence true sc).step limits d = .ok (flag p value 1 sc) := by
      cases value <;> simp [flagSpelling, step, isBlank, blanks]
    obtain ⟨d, hd, hstep⟩ := hfirst
    rw [hd, feed_cons_of_step hstep]
    exact feed_flag p value sc (by cases value <;> decide)

end State

end SearchCriteria
