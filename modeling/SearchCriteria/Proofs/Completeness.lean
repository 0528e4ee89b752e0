import SearchCriteria.Proofs.Runs

/-!
# The reader reads every derivation

A phrase that the grammar derives is read in one run from any state that waits for a primary
(`Ready`), and the run decides the limits exactly: it succeeds when the phrase fits them and
fails otherwise (`Spells.feed_of_fits`, `Spells.feed_error_of_not_fits`). A successful run ends
right after the phrase's last relational expression (`AfterPrimary`), with the scope that the
token reader reaches on the phrase's tokens. So a whole text of the grammar reads as the query
that the token reader builds (`Text.parse_eq`), or is refused for a limit (`Text.parse_error`).
-/

namespace SearchCriteria

/-- A reader waiting for a primary in scope `sc`: before the first relational expression, where
an asterisk would be the wildcard, or after a junction. -/
inductive Ready : State → Scope → Bool → Prop
  /-- Nothing but blanks and opening parentheses read so far. -/
  | root (d : Nat) : Ready (.root d) { depth := d } true
  /-- After a junction and a blank. -/
  | joined (j : Junction) (sc : Scope) : Ready (.joined j sc) sc false

/-- A reader right after text `s` whose last relational expression is `e`, in scope `sc`. After
a double-quoted operand or a closing parenthesis it is in the expression state; after a flag it
waits in the flag state for a blank or a parenthesis. -/
inductive AfterPrimary : List Char → State → Query → Scope → Prop
  /-- The expression state. -/
  | expression {s : List Char} {e : Query} {sc : Scope} : AfterPrimary s (.expression e sc) e sc
  /-- A complete flag, which text ending in a double quote or a parenthesis cannot leave. -/
  | flag {s : List Char} {p : String} {value : Bool} {sc : Scope} : ¬ EndsClosed s →
      AfterPrimary s (.flag p value (flagSpelling value).length sc) (.relational p (.presence value)) sc

/-- The limits hold over a phrase of nesting `n` and tokens `ts` read from scope `sc`: its
parentheses do not open deeper than the nesting limit, and each of its junctions, checked at
its first letter, leaves room for one more relational expression. -/
def Fits (limits : Limits) (sc : Scope) (n : Nat) (ts : List Token) : Prop :=
  sc.depth + n ≤ limits.maxNestingDepth ∧
    (ts.countP Token.isJunction = 0 ∨
      sc.chain.joined + ts.countP Token.isJunction + 1 ≤ limits.maxTerms)

variable {limits : Limits}

/-- Where a primary may start, a character that is neither a blank nor a parenthesis, and not a
leading asterisk, starts a property. -/
theorem Ready.step_property {st : State} {sc : Scope} {lead : Bool} (hready : Ready st sc lead)
    {c : Char} (hblank : isBlank c = false) (hopen : c ≠ '(') (hclose : c ≠ ')')
    (hstar : lead = true → c ≠ '*') : st.step limits c = .ok (.property c.toString sc) := by
  cases hready with
  | root d =>
    have hc : c ≠ '*' := hstar rfl
    simp only [State.step.eq_def, hblank, Bool.false_eq_true, if_false]
  | joined j sc =>
    simp only [State.step.eq_def, hblank, Bool.false_eq_true, if_false]

/-- Where a primary may start, an opening parenthesis within the nesting limit opens a group, and a
primary may start inside it. -/
theorem Ready.step_open {st : State} {sc : Scope} {lead : Bool} (hready : Ready st sc lead)
    (hlt : sc.depth < limits.maxNestingDepth) :
    ∃ st', st.step limits '(' = .ok st' ∧ Ready st' { sc with depth := sc.depth + 1 } lead := by
  have hopen : openParenthesis limits sc.depth = .ok (sc.depth + 1) :=
    openParenthesis_eq_ok.2 ⟨hlt, rfl⟩
  cases hready with
  | root d =>
    refine ⟨.root (d + 1), ?_, Ready.root (d + 1)⟩
    have hd : openParenthesis limits d = .ok (d + 1) := hopen
    show (openParenthesis limits d >>= fun x => pure (State.root x)) = _
    rw [hd]
    rfl
  | joined j sc =>
    refine ⟨.joined j { sc with depth := sc.depth + 1 }, ?_, Ready.joined j _⟩
    show (openParenthesis limits sc.depth >>= fun x => pure (State.joined j { sc with depth := x })) = _
    rw [hopen]
    rfl

/-- Where a primary may start, an opening parenthesis at the nesting limit is refused. -/
theorem Ready.step_open_error {st : State} {sc : Scope} {lead : Bool} (hready : Ready st sc lead)
    (hge : limits.maxNestingDepth ≤ sc.depth) : ∃ err, st.step limits '(' = .error err := by
  have hopen : openParenthesis limits sc.depth = .error (.nestingTooDeep limits.maxNestingDepth) := by
    simp [openParenthesis, hge]
  cases hready with
  | root d =>
    simp only at hopen
    exact ⟨_, by simp [State.step.eq_def, isBlank, blanks, hopen]; rfl⟩
  | joined j sc => exact ⟨_, by simp [State.step.eq_def, isBlank, blanks, hopen]; rfl⟩

/-- Blanks where a primary may start leave the reader in place. -/
theorem Ready.feed_blanks {st : State} {sc : Scope} {lead : Bool} (hready : Ready st sc lead)
    {w : List Char} (hw : Blanks w) : st.feed limits w = .ok st := by
  cases hready with
  | root d => exact State.feed_blanks_root d hw
  | joined j sc => exact State.feed_blanks_joined j sc hw

namespace AfterPrimary

/-- What a reader after a primary has read may be preceded by any text: a flag still ends a text
that does not end closed. -/
theorem append {s : List Char} {st : State} {e : Query} {sc : Scope} (h : AfterPrimary s st e sc)
    (hs : s ≠ []) (x : List Char) : AfterPrimary (x ++ s) st e sc := by
  cases h with
  | expression => exact .expression
  | flag hclosed => exact .flag (by rwa [EndsClosed.append_iff hs])

/-- After a primary, a blank or a closing parenthesis steps as after an expression. -/
theorem step_eq {s : List Char} {st : State} {e : Query} {sc : Scope} (h : AfterPrimary s st e sc)
    {c : Char} (hc : isBlank c = true ∨ c = ')') : st.step limits c = stepExpression limits e sc c := by
  cases h with
  | expression => rfl
  | flag _ =>
    have hc' : isBlank c = true ∨ c = '(' ∨ c = ')' := by
      rcases hc with hc | hc
      · exact Or.inl hc
      · exact Or.inr (Or.inr hc)
    simp only [State.step.eq_def, drop_length_toList]
    rw [if_pos hc']

/-- A separator takes the reader to the expression state. -/
theorem feed_separator {s sep : List Char} {st : State} {e : Query} {sc : Scope}
    (h : AfterPrimary s st e sc) (hsep : Separator s sep) :
    st.feed limits sep = .ok (.expression e sc) := by
  rcases hsep with ⟨hne, hblank⟩ | ⟨rfl, hclosed⟩
  · obtain ⟨b, w, rfl⟩ := List.exists_cons_of_ne_nil hne
    have hb : isBlank b = true := hblank b (by simp)
    have hstep : st.step limits b = .ok (.expression e sc) := by
      rw [h.step_eq (Or.inl hb)]
      simp [stepExpression, hb]
    rw [State.feed_cons_of_step hstep]
    exact State.feed_blanks_expression e sc (fun d hd => hblank d (by simp [hd]))
  · cases h with
    | expression => rfl
    | flag hnot => exact absurd hclosed hnot

/-- Blanks and a closing parenthesis close one open group. -/
theorem feed_close {s w : List Char} {st : State} {e : Query} {sc : Scope}
    (h : AfterPrimary s st e sc) (hw : Blanks w) (hdepth : 0 < sc.depth) :
    st.feed limits (w ++ [')']) = .ok (.expression e { sc with depth := sc.depth - 1 }) := by
  have hstep : stepExpression limits e sc ')' = .ok (.expression e { sc with depth := sc.depth - 1 }) := by
    simp [stepExpression, isBlank, blanks, Nat.pos_iff_ne_zero.1 hdepth]
  cases w with
  | nil =>
    rw [List.nil_append, State.feed_cons_of_step (by rw [h.step_eq (Or.inr rfl), hstep])]
    rfl
  | cons b w =>
    have hsep : Separator s (b :: w) := Or.inl ⟨by simp, hw⟩
    rw [State.feed_append_of_feed (h.feed_separator hsep),
      State.feed_cons_of_step (show (State.expression e sc).step limits ')' = _ from hstep)]
    rfl

/-- Blanks at the end of the text, after a primary at depth zero, leave the query that the
chain completes. -/
theorem feed_finish {s w : List Char} {st : State} {e : Query} {sc : Scope}
    (h : AfterPrimary s st e sc) (hw : Blanks w) (hdepth : sc.depth = 0) :
    (st.feed limits w >>= State.finish) = .ok (sc.chain.complete e) := by
  have hfinish : (State.expression e sc).finish = .ok (sc.chain.complete e) := by
    simp [State.finish, finishExpression, hdepth]
  cases w with
  | nil =>
    cases h with
    | expression => exact hfinish
    | flag _ =>
      simp only [State.feed_nil]
      simp only [bind, Except.bind, State.finish, drop_length_toList]
      exact hfinish
  | cons b w =>
    have hsep : Separator s (b :: w) := Or.inl ⟨by simp, hw⟩
    rw [h.feed_separator hsep]
    exact hfinish

end AfterPrimary

/-- A junction's keyword and blanks after an expression, with room for one more relational
expression, defer the junction and wait for its right side: the first letter defers the junction,
and the rest of the keyword and a blank complete it. -/
theorem feed_junction (e : Query) {sc : Scope} {j : Junction} {w : List Char} (hw : Spacing w)
    (hroom : sc.chain.joined + 2 ≤ limits.maxTerms) :
    (State.expression e sc).feed limits (j.keyword.toList ++ w) =
      .ok (.joined j (Scope.readToken (sc, e) (.junction j)).1) := by
  obtain ⟨b, w, rfl⟩ := List.exists_cons_of_ne_nil hw.1
  have hb : isBlank b = true := hw.blanks b (by simp)
  have hdefer : deferJunction limits j e sc =
      .ok (.junctionWord j 1 (Scope.readToken (sc, e) (.junction j)).1) := by
    simp [deferJunction, Scope.readToken, Nat.not_lt.2 hroom]
  have hfirst : ∃ c, j.keyword.toList = c :: j.keyword.toList.drop 1 ∧
      (State.expression e sc).step limits c = deferJunction limits j e sc := by
    cases j with
    | and => exact ⟨'a', rfl, by simp [State.step.eq_def, stepExpression, isBlank, blanks]⟩
    | or => exact ⟨'o', rfl, by simp [State.step.eq_def, stepExpression, isBlank, blanks]⟩
  obtain ⟨c, hc, hstep⟩ := hfirst
  rw [hc, List.cons_append, State.feed_cons_of_step (hstep.trans hdefer),
    ← List.singleton_append, ← List.append_assoc,
    State.feed_append_of_feed (State.feed_junctionWord j _ (by cases j <;> decide) hb)]
  exact State.feed_blanks_joined j _ (fun d hd => hw.blanks d (by simp [hd]))

/-- A junction with no room for one more relational expression is refused at its first letter. -/
theorem feed_junction_error (e : Query) {sc : Scope} (j : Junction) (rest : List Char)
    (hfull : limits.maxTerms < sc.chain.joined + 2) :
    ∃ err, (State.expression e sc).feed limits (j.keyword.toList ++ rest) = .error err := by
  have hdefer : deferJunction limits j e sc = .error (.tooManyTerms limits.maxTerms) := by
    simp [deferJunction, hfull]
  cases j <;>
    exact ⟨_, by simp [State.feed_cons, State.step, stepExpression, isBlank, blanks, hdefer,
      Junction.keyword]; rfl⟩

/-- Reading the tokens of a phrase comes back to the scope's depth and counts the phrase's
junctions on the chain. -/
theorem Spells.readTokens_scope {f : Phrase} {n : Nat} {s : List Char} {ts : List Token}
    (h : Spells f n s ts) (sc : Scope) (e : Query) :
    (Scope.readTokens (sc, e) ts).1.depth = sc.depth ∧
      (Scope.readTokens (sc, e) ts).1.chain.joined = sc.chain.joined + ts.countP Token.isJunction :=
  ⟨by rw [Scope.readTokens_depth]; exact (h.depth _).1, Scope.readTokens_joined _ ts⟩

/-- Reading a junction keeps the depth and counts one more junction on the chain. -/
theorem Scope.readToken_junction_scope (sc : Scope) (e : Query) (j : Junction) :
    (Scope.readToken (sc, e) (.junction j)).1.depth = sc.depth ∧
      (Scope.readToken (sc, e) (.junction j)).1.chain.joined = sc.chain.joined + 1 :=
  ⟨rfl, rfl⟩

/-- A group fits exactly when its parenthesis opens within the nesting limit and its expression fits
one level deeper. -/
theorem fits_group_iff {sc : Scope} {n : Nat} {ts : List Token} :
    Fits limits sc (n + 1) (.openGroup :: ts ++ [.closeGroup]) ↔
      sc.depth < limits.maxNestingDepth ∧ Fits limits { sc with depth := sc.depth + 1 } n ts := by
  simp only [Fits, List.cons_append, List.countP_cons, List.countP_append, Token.isJunction,
    Bool.false_eq_true, if_false, Nat.add_zero, List.countP_nil]
  omega

/-- Where a primary may start, the reader reads every derivation within the limits through to the
state after its last primary, having read the derivation's tokens. The first character of a property
starts it and the rest of the relational expression follows; a group's tokens leave the depth one
above the scope until the closing parenthesis; a junction is checked against the relational
expressions so far, then deferred. -/
theorem Spells.feed_of_fits {f : Phrase} {n : Nat} {s : List Char} {ts : List Token}
    (h : Spells f n s ts) :
    ∀ {st : State} {sc : Scope} {lead : Bool} (e₀ : Query), Ready st sc lead →
      (lead = true → StarFree ts) → Fits limits sc n ts →
      ∃ st', st.feed limits s = .ok st' ∧
        AfterPrimary s st' (Scope.readTokens (sc, e₀) ts).2 (Scope.readTokens (sc, e₀) ts).1 := by
  induction h with
  | @leaf s p r hr =>
    intro st sc lead e₀ hready hstar _
    obtain ⟨hne, hblank, hopen, hclose⟩ := hr.isProperty
    obtain ⟨c, t, hct, hhead, hrun⟩ := State.feed_relational limits hr
    have hc : c ∈ p.toList := List.mem_of_mem_head? hhead
    have hstep : st.step limits c = .ok (.property c.toString sc) :=
      hready.step_property (hblank c hc) (fun h => hopen (h ▸ hhead)) (fun h => hclose (h ▸ hhead))
        (fun hlead h => hstar hlead p rfl (h ▸ hhead))
    refine ⟨leafEnd p r sc, by rw [hct, State.feed_cons_of_step hstep, hrun sc], ?_⟩
    cases r with
    | text op v => exact .expression
    | presence value => exact .flag hr.not_endsClosed
  | @group w₁ e w₂ n ts hw₁ he hw₂ ih =>
    intro st sc lead e₀ hready hstar hfits
    obtain ⟨hlt, hfits'⟩ := fits_group_iff.1 hfits
    obtain ⟨st₁, hstep, hready₁⟩ := hready.step_open hlt
    obtain ⟨st₂, hrun, hafter⟩ :=
      ih e₀ hready₁ (fun hlead => he.starFree_group (hstar hlead)) hfits'
    have hdepth : (Scope.readTokens ({ sc with depth := sc.depth + 1 }, e₀) ts).1.depth =
        sc.depth + 1 :=
      (he.readTokens_scope _ e₀).1
    refine ⟨_, ?_, .expression⟩
    simp only [List.cons_append, List.append_assoc]
    rw [State.feed_cons_of_step hstep, State.feed_append_of_feed (hready₁.feed_blanks hw₁),
      State.feed_append_of_feed hrun, hafter.feed_close hw₂ (by omega)]
    simp [Scope.readToken, hdepth]
  | primary _ ih => exact ih
  | @junction n m e sep w s ts us j he hsep hw hs ihe ihs =>
    intro st sc lead e₀ hready hstar hfits
    obtain ⟨hnest, hterms⟩ := hfits
    simp only [List.countP_append, List.countP_cons, Token.isJunction, if_true] at hterms
    have hfits₁ : Fits limits sc n ts := ⟨by omega, by omega⟩
    obtain ⟨st₁, hrun₁, hafter₁⟩ :=
      ihe e₀ hready (fun hlead => he.starFree_of_append (hstar hlead)) hfits₁
    generalize hx₁ : Scope.readTokens (sc, e₀) ts = x₁ at hafter₁
    obtain ⟨hdepth₁, hjoined₁⟩ := he.readTokens_scope sc e₀
    rw [hx₁] at hdepth₁ hjoined₁
    have hroom : x₁.1.chain.joined + 2 ≤ limits.maxTerms := by omega
    have hjunction := feed_junction x₁.2 (j := j) hw hroom
    generalize hx₂ : Scope.readToken (x₁.1, x₁.2) (.junction j) = x₂ at hjunction
    obtain ⟨hdepth₂, hjoined₂⟩ := Scope.readToken_junction_scope x₁.1 x₁.2 j
    rw [hx₂] at hdepth₂ hjoined₂
    obtain ⟨st₂, hrun₂, hafter₂⟩ :=
      ihs x₂.2 (Ready.joined j x₂.1) (by simp) ⟨by omega, by omega⟩
    refine ⟨st₂, ?_, ?_⟩
    · simp only [List.append_assoc]
      rw [State.feed_append_of_feed hrun₁, State.feed_append_of_feed (hafter₁.feed_separator hsep),
        ← List.append_assoc, State.feed_append_of_feed hjunction]
      exact hrun₂
    · have hsplit : Scope.readTokens (sc, e₀) (ts ++ .junction j :: us) =
          Scope.readTokens x₂ us := by
        simp [hx₁, ← hx₂]
      rw [hsplit]
      exact hafter₂.append hs.ne_nil _

/-- Where a primary may start, a derivation that breaks a limit is refused. In a group, either the
parenthesis itself is one too deep or the expression inside breaks a limit; at a junction, either it
finds no room for another relational expression, or it is deferred and its right side breaks a
limit. -/
theorem Spells.feed_error_of_not_fits {f : Phrase} {n : Nat} {s : List Char} {ts : List Token}
    (h : Spells f n s ts) :
    ∀ {st : State} {sc : Scope} {lead : Bool}, Ready st sc lead → (lead = true → StarFree ts) →
      sc.depth ≤ limits.maxNestingDepth → ¬ Fits limits sc n ts →
      ∃ err, st.feed limits s = .error err := by
  induction h with
  | leaf =>
    intro st sc lead _ _ hdepth hnot
    exact absurd ⟨by simpa using hdepth, Or.inl rfl⟩ hnot
  | @group w₁ e w₂ n ts hw₁ he hw₂ ih =>
    intro st sc lead hready hstar hdepth hnot
    by_cases hlt : sc.depth < limits.maxNestingDepth
    · obtain ⟨st₁, hstep, hready₁⟩ := hready.step_open hlt
      have hnot' : ¬ Fits limits { sc with depth := sc.depth + 1 } n ts :=
        fun hfits => hnot (fits_group_iff.2 ⟨hlt, hfits⟩)
      obtain ⟨err, herr⟩ := ih hready₁ (fun hlead => he.starFree_group (hstar hlead)) hlt hnot'
      refine ⟨err, ?_⟩
      simp only [List.cons_append, List.append_assoc]
      rw [State.feed_cons_of_step hstep, State.feed_append_of_feed (hready₁.feed_blanks hw₁),
        State.feed_append_of_error herr]
    · have hge : limits.maxNestingDepth ≤ sc.depth := by omega
      obtain ⟨err, herr⟩ := hready.step_open_error hge
      refine ⟨err, ?_⟩
      simp only [List.cons_append, List.append_assoc]
      rw [State.feed_cons, herr]
      rfl
  | primary _ ih => exact ih
  | @junction n m e sep w s ts us j he hsep hw hs ihe ihs =>
    intro st sc lead hready hstar hdepth hnot
    have hstar₁ : lead = true → StarFree ts := fun hlead => he.starFree_of_append (hstar hlead)
    by_cases hfits₁ : Fits limits sc n ts
    · obtain ⟨st₁, hrun₁, hafter₁⟩ := he.feed_of_fits .allResults hready hstar₁ hfits₁
      generalize hx₁ : Scope.readTokens (sc, .allResults) ts = x₁ at hafter₁
      obtain ⟨hdepth₁, hjoined₁⟩ := he.readTokens_scope sc .allResults
      rw [hx₁] at hdepth₁ hjoined₁
      have hstart : st.feed limits (e ++ sep ++ j.keyword.toList ++ w ++ s) =
          (State.expression x₁.2 x₁.1).feed limits (j.keyword.toList ++ w ++ s) := by
        simp only [List.append_assoc]
        rw [State.feed_append_of_feed hrun₁, State.feed_append_of_feed (hafter₁.feed_separator hsep)]
      rw [hstart]
      by_cases hroom : x₁.1.chain.joined + 2 ≤ limits.maxTerms
      · have hjunction := feed_junction x₁.2 (j := j) hw hroom
        generalize hx₂ : Scope.readToken (x₁.1, x₁.2) (.junction j) = x₂ at hjunction
        obtain ⟨hdepth₂, hjoined₂⟩ := Scope.readToken_junction_scope x₁.1 x₁.2 j
        rw [hx₂] at hdepth₂ hjoined₂
        have hnot₂ : ¬ Fits limits x₂.1 m us := by
          intro ⟨hnest₂, hterms₂⟩
          apply hnot
          simp only [Fits, List.countP_append, List.countP_cons, Token.isJunction, if_true] at hfits₁ ⊢
          omega
        obtain ⟨err, herr⟩ := ihs (Ready.joined j x₂.1) (by simp) (by omega) hnot₂
        exact ⟨err, by rw [State.feed_append_of_feed hjunction]; exact herr⟩
      · have hfull : limits.maxTerms < x₁.1.chain.joined + 2 := by omega
        obtain ⟨err, herr⟩ := feed_junction_error x₁.2 j (w ++ s) hfull
        exact ⟨err, by simpa [List.append_assoc] using herr⟩
    · obtain ⟨err, herr⟩ := ihe hready hstar₁ hdepth hfits₁
      exact ⟨err, by simp only [List.append_assoc]; exact State.feed_append_of_error herr _⟩

/-- A reading of a whole text is a run from the first state, then the end of the text. -/
theorem Query.parse_eq_feed (limits : Limits) (s : String) :
    Query.parse limits s = ((State.root 0).feed limits s.toList >>= State.finish) := by
  simp only [Query.parse, Reader.feed, Reader.new, Reader.finish]
  cases (State.root 0).feed limits s.toList <;> rfl

/-- At the start, the limits hold over a phrase exactly when its parentheses nest no deeper than
the nesting limit and it has at most `max 1 maxTerms` relational expressions. -/
theorem Spells.fits_iff {f : Phrase} {n : Nat} {s : List Char} {ts : List Token}
    (h : Spells f n s ts) :
    Fits limits {} n ts ↔
      n ≤ limits.maxNestingDepth ∧ ts.countP Token.isLeaf ≤ max 1 limits.maxTerms := by
  have hcount := h.countP_leaf
  simp only [Fits, hcount]
  show 0 + n ≤ _ ∧ (_ ∨ 0 + _ + 1 ≤ _) ↔ _
  omega

/-- A text of the grammar within the limits reads as the query the token reader builds from its
tokens. -/
theorem Text.parse_eq {n : Nat} {s : String} {ts : List Token} (ht : Text n s.toList ts)
    (hstar : StarFree ts) (hfits : Fits limits {} n ts) :
    Query.parse limits s = .ok (Token.read ts) := by
  obtain ⟨w₁, e, w₂, hw₁, he, hw₂, hs⟩ := ht
  obtain ⟨st, hrun, hafter⟩ := he.feed_of_fits .allResults (Ready.root 0)
    (fun _ => hstar) hfits
  have hdepth : (Scope.readTokens ({}, .allResults) ts).1.depth = 0 := by
    rw [Scope.readTokens_depth]
    exact (he.depth 0).1
  rw [Query.parse_eq_feed, hs, List.append_assoc,
    State.feed_append_of_feed (State.feed_blanks_root 0 hw₁), State.feed_append_of_feed hrun]
  exact hafter.feed_finish hw₂ hdepth

/-- A text of the grammar beyond the limits is refused. -/
theorem Text.parse_error {n : Nat} {s : String} {ts : List Token} (ht : Text n s.toList ts)
    (hstar : StarFree ts) (hnot : ¬ Fits limits {} n ts) :
    ∃ err, Query.parse limits s = .error err := by
  obtain ⟨w₁, e, w₂, hw₁, he, hw₂, hs⟩ := ht
  obtain ⟨err, herr⟩ := he.feed_error_of_not_fits (Ready.root 0) (fun _ => hstar)
    (Nat.zero_le _) hnot
  refine ⟨err, ?_⟩
  rw [Query.parse_eq_feed, hs, List.append_assoc,
    State.feed_append_of_feed (State.feed_blanks_root 0 hw₁), State.feed_append_of_error herr]
  rfl

/-- The wildcard between blanks reads as the query that every item matches. -/
theorem WildcardText.parse_eq {s : String} (h : WildcardText s.toList) :
    Query.parse limits s = .ok .allResults := by
  obtain ⟨w₁, w₂, hw₁, hw₂, hs⟩ := h
  have hstar : (State.root 0).step limits '*' = .ok .wildcard := by
    simp [State.step.eq_def, isBlank, blanks]
  rw [Query.parse_eq_feed, hs, State.feed_append_of_feed (State.feed_blanks_root 0 hw₁),
    State.feed_cons_of_step hstar, State.feed_blanks_wildcard hw₂]
  rfl

end SearchCriteria
