import SearchCriteria.Proofs.Refusals

/-!
# What a refused keyword reports

Two errors carry text that the reader rebuilds from the keyword it is reading rather than copies
from the input. `unexpectedOperator` carries the part of a keyword read when a blank or the end
of the text cut it short; `unexpectedOperatorBeginning` the part read together with the character
that no keyword goes on with. Keywords stand at two sites: an operator word after a property and
blanks, a junction after an expression.

Both reports are exactly the characters of the text read since the site began
(`Query.parse_keyword_errors`). A cut keyword is a non-empty proper beginning of a keyword of its
site, and the reading stopped at a blank or at the end right after it. A misfit is what was read
of a keyword, whole or not, and the character that stopped the reading, which begins no keyword
of the site together with it.

The second half rests on an invariant of reachable states (`State.Picked`): an operator word is
entered only with the letters that tell it apart from the others, so the letter d alone never
stands for derivedFrom or doesNotContain.
-/

namespace SearchCriteria

/-- The two places where a keyword may stand. -/
inductive KeywordSite where
  /-- An operator word, after a property and blanks. -/
  | operator
  /-- A junction, after an expression. -/
  | junction
  deriving DecidableEq, Repr

namespace KeywordSite

/-- The keywords that may stand at a site. -/
def keywords : KeywordSite → List String
  | operator => [WordOperator.contains.spelling, WordOperator.doesNotContain.spelling,
      WordOperator.derivedFrom.spelling, WordOperator.presence.spelling]
  | junction => [Junction.and.keyword, Junction.or.keyword]

/-- The operator words as written. -/
@[simp] theorem keywords_operator :
    operator.keywords = ["contains", "doesNotContain", "derivedFrom", "exists"] := rfl

/-- The junction keywords as written. -/
@[simp] theorem keywords_junction : junction.keywords = ["and", "or"] := rfl

/-- Text after which a keyword of the site begins: a property and blanks where a primary starts,
or an expression followed by blanks. -/
def Before : KeywordSite → List Char → Prop
  | operator, v => ∃ d b name w, Begins d b ∧ IsProperty name ∧ Spacing w ∧ v = b ++ name ++ w
  | junction, v => ∃ d o n e ts w, Opening d o ∧ Spells .expression n e ts ∧ Blanks w ∧
      v = o ++ e ++ w

/-- Text that a keyword of the site begins with, or is. -/
def Fits (site : KeywordSite) (u : List Char) : Prop := ∃ kw ∈ site.keywords, u <+: kw.toList

/-- A non-empty proper beginning of a keyword of the site. -/
def Incomplete (site : KeywordSite) (u : List Char) : Prop :=
  u ≠ [] ∧ ∃ kw ∈ site.keywords, u <+: kw.toList ∧ u ≠ kw.toList

/-- What is read of `word` picks it out among the keywords of the site: it is one of them, and no
other begins with what is read. -/
def Picks (site : KeywordSite) (word : String) (typed : Nat) : Prop :=
  word ∈ site.keywords ∧ ∀ kw ∈ site.keywords, word.toList.take typed <+: kw.toList → kw = word

/-- Every keyword of the operator site spells a word operator. -/
theorem mem_keywords_operator {kw : String} (h : kw ∈ operator.keywords) :
    ∃ w : WordOperator, kw = w.spelling := by
  simp only [keywords, List.mem_cons, List.not_mem_nil, or_false] at h
  rcases h with rfl | rfl | rfl | rfl <;> exact ⟨_, rfl⟩

/-- Every keyword of the junction site spells a junction. -/
theorem mem_keywords_junction {kw : String} (h : kw ∈ junction.keywords) :
    ∃ j : Junction, kw = j.keyword := by
  simp only [keywords, List.mem_cons, List.not_mem_nil, or_false] at h
  rcases h with rfl | rfl <;> exact ⟨_, rfl⟩

/-- What is read of a keyword of the site fits the site. -/
theorem fits_take {site : KeywordSite} {word : String} (hmem : word ∈ site.keywords) (n : Nat) :
    site.Fits (word.toList.take n) :=
  ⟨word, hmem, List.take_prefix _ _⟩

/-- A keyword cut short after at least one letter is incomplete. -/
theorem incomplete_take {site : KeywordSite} {word : String} {typed : Nat} {d : Char}
    {rest : List Char} (hmem : word ∈ site.keywords) (hdrop : word.toList.drop typed = d :: rest)
    (h1 : 1 ≤ typed) : site.Incomplete (word.toList.take typed) := by
  have hlt := lt_length_of_drop_eq_cons hdrop
  refine ⟨fun h => ?_, word, hmem, List.take_prefix _ _, fun h => ?_⟩
  · rcases List.take_eq_nil_iff.1 h with h0 | hnil
    · omega
    · simp [hnil] at hlt
  · have hlen := congrArg List.length h
    rw [List.length_take_of_le (Nat.le_of_lt hlt)] at hlen
    omega

end KeywordSite

/-- The keywords of the operator site are the operator words. -/
theorem WordOperator.spelling_mem_keywords (w : WordOperator) :
    w.spelling ∈ KeywordSite.operator.keywords := by
  cases w <;> simp [KeywordSite.keywords]

/-- The keywords of the junction site are the junctions. -/
theorem Junction.keyword_mem_keywords (j : Junction) :
    j.keyword ∈ KeywordSite.junction.keywords := by
  cases j <;> simp [KeywordSite.keywords]

/-- How many letters of an operator word tell it apart from the others: the letter d begins
two. -/
def WordOperator.picked : WordOperator → Nat
  | .contains | .presence => 1
  | .derivedFrom | .doesNotContain => 2

/-- The letters that tell an operator word apart begin no other operator word. -/
theorem WordOperator.eq_of_prefix_picked {w w' : WordOperator}
    (h : w.spelling.toList.take w.picked <+: w'.spelling.toList) : w' = w := by
  cases w <;> cases w' <;>
    simp [picked, spelling, operator, Operator.spelling, TextOperator.spelling] at h ⊢

/-- The first letter of a junction begins no other junction. -/
theorem Junction.eq_of_prefix_head {j j' : Junction}
    (h : j.keyword.toList.take 1 <+: j'.keyword.toList) : j' = j := by
  cases j <;> cases j' <;> simp [keyword] at h ⊢

namespace KeywordSite

/-- An operator word read as far as the letters that tell it apart is picked out. -/
theorem picks_operator {word : WordOperator} {typed : Nat} (hpick : word.picked ≤ typed) :
    operator.Picks word.spelling typed := by
  refine ⟨word.spelling_mem_keywords, fun kw hkw hpre => ?_⟩
  obtain ⟨w', rfl⟩ := mem_keywords_operator hkw
  have hp : word.spelling.toList.take word.picked <+: w'.spelling.toList :=
    (List.take_prefix_take_left hpick).trans hpre
  rw [WordOperator.eq_of_prefix_picked hp]

/-- A junction read as far as its first letter is picked out. -/
theorem picks_junction {j : Junction} {typed : Nat} (h1 : 1 ≤ typed) :
    junction.Picks j.keyword typed := by
  refine ⟨j.keyword_mem_keywords, fun kw hkw hpre => ?_⟩
  obtain ⟨j', rfl⟩ := mem_keywords_junction hkw
  rw [Junction.eq_of_prefix_head ((List.take_prefix_take_left h1).trans hpre)]

end KeywordSite

/-- A character that a keyword's beginning is followed by within the keyword is its next
letter. -/
theorem eq_of_prefix_take_append {l rest : List Char} {n : Nat} {c d : Char}
    (hdrop : l.drop n = d :: rest) (h : l.take n ++ [c] <+: l) : c = d := by
  obtain ⟨t, ht⟩ := h
  have hlen : (l.take n).length = n :=
    List.length_take_of_le (Nat.le_of_lt (lt_length_of_drop_eq_cons hdrop))
  rw [← ht, List.append_assoc, List.drop_left' hlen] at hdrop
  exact (List.cons.inj hdrop).1

/-- The part reported of a keyword cut short after at least one letter is what was read of it,
an incomplete keyword. -/
theorem typedPart_incomplete {site : KeywordSite} {word : String} {typed : Nat} {d : Char}
    {rest : List Char} (hmem : word ∈ site.keywords) (hdrop : word.toList.drop typed = d :: rest)
    (h1 : 1 ≤ typed) :
    (typedPart word typed).toList = word.toList.take typed ∧
      site.Incomplete (typedPart word typed).toList := by
  have hp : (typedPart word typed).toList = word.toList.take typed := String.toList_ofList
  exact ⟨hp, hp ▸ KeywordSite.incomplete_take hmem hdrop h1⟩

/-- The letter d alone is an incomplete operator word. -/
theorem KeywordSite.incomplete_d : KeywordSite.operator.Incomplete "d".toList := by
  refine ⟨by simp, _, WordOperator.derivedFrom.spelling_mem_keywords, ?_, ?_⟩ <;>
    simp [WordOperator.spelling, WordOperator.operator, TextOperator.spelling]

namespace KeywordRefusal

variable {word : String} {typed : Nat} {c : Char} {site : KeywordSite}

/-- A keyword refused at a blank was cut short: the report is the part read, an incomplete
keyword of its site. -/
theorem incomplete {p : String} (hk : KeywordRefusal word typed c (.unexpectedOperator p))
    (hmem : word ∈ site.keywords) (h1 : 1 ≤ typed) :
    isBlank c = true ∧ p.toList = word.toList.take typed ∧ site.Incomplete p.toList := by
  cases hk with
  | cut hdrop _ hc => exact ⟨hc, typedPart_incomplete hmem hdrop h1⟩

/-- A keyword refused at a character other than a blank reports the part read and the
character, which no keyword of the site begins with once the part read picks the keyword out:
a keyword the text could still become is the one being read, and when that keyword is whole,
nothing longer than it begins it. -/
theorem misfit {f : String} (hk : KeywordRefusal word typed c (.unexpectedOperatorBeginning f))
    (hp : site.Picks word typed) :
    f.toList = word.toList.take typed ++ [c] ∧ ¬ site.Fits (word.toList.take typed ++ [c]) := by
  have hword : ∀ kw ∈ site.keywords, word.toList.take typed ++ [c] <+: kw.toList →
      word.toList.take typed ++ [c] <+: word.toList := by
    intro kw hkw hpre
    have hkw' : kw = word := hp.2 kw hkw ((List.prefix_append _ _).trans hpre)
    rwa [hkw'] at hpre
  cases hk with
  | glued hdrop _ =>
    have htake : word.toList.take typed = word.toList :=
      List.take_of_length_le (List.drop_eq_nil_iff.1 hdrop)
    refine ⟨by simp [htake], fun ⟨kw, hkw, hpre⟩ => ?_⟩
    have hlen := (hword kw hkw hpre).length_le
    simp only [htake, List.length_append, List.length_singleton] at hlen
    omega
  | stray hdrop hcd _ =>
    refine ⟨by simp [typedPart], fun ⟨kw, hkw, hpre⟩ => ?_⟩
    exact hcd (eq_of_prefix_take_append hdrop (hword kw hkw hpre))

end KeywordRefusal

namespace State

/-- An operator word holds at least the letters that tell it apart. -/
def Picked : State → Prop
  | operatorWord _ word typed _ => word.picked ≤ typed
  | _ => True

/-- Where a state stands at the site of a keyword, the site and what is read of the keyword
there: nothing yet while an operator or a junction may begin, the letter d, or the part of a word
read. -/
def keywordPart : State → Option (KeywordSite × List Char)
  | awaitOperator _ _ => some (.operator, [])
  | derivedOrDoesNot _ _ => some (.operator, ['d'])
  | operatorWord _ word typed _ => some (.operator, word.spelling.toList.take typed)
  | flag _ value typed _ =>
    match (flagSpelling value).toList.drop typed with
    | [] => some (.junction, [])
    | _ :: _ => none
  | expression _ _ => some (.junction, [])
  | junctionWord j typed _ => some (.junction, j.keyword.toList.take typed)
  | _ => none

/-- What a state holds of a keyword fits its site. -/
theorem fits_of_keywordPart {st : State} {site : KeywordSite} {u : List Char}
    (h : st.keywordPart = some (site, u)) : site.Fits u := by
  cases st with
  | awaitOperator =>
    cases h
    exact ⟨_, WordOperator.contains.spelling_mem_keywords, List.nil_prefix⟩
  | derivedOrDoesNot =>
    cases h
    refine ⟨_, WordOperator.derivedFrom.spelling_mem_keywords, ?_⟩
    simp [WordOperator.spelling, WordOperator.operator, TextOperator.spelling]
  | expression =>
    cases h
    exact ⟨_, Junction.and.keyword_mem_keywords, List.nil_prefix⟩
  | operatorWord name word typed sc =>
    cases h
    exact KeywordSite.fits_take word.spelling_mem_keywords typed
  | flag name value typed sc =>
    simp only [keywordPart] at h
    split at h
    · cases h
      exact ⟨_, Junction.and.keyword_mem_keywords, List.nil_prefix⟩
    · cases h
  | junctionWord j typed sc =>
    cases h
    exact KeywordSite.fits_take j.keyword_mem_keywords typed
  | root | wildcard | property | symbol | awaitOperand | text | joined => cases h

variable {limits : Limits}

/-- After a complete expression no character leads into an operator word. -/
theorem stepExpression_ne_operatorWord (operand : Query) (sc : Scope) (c : Char) (name : String)
    (word : WordOperator) (typed : Nat) (sc' : Scope) :
    stepExpression limits operand sc c ≠ .ok (.operatorWord name word typed sc') := by
  intro h
  unfold stepExpression deferJunction at h
  split at h
  · cases h
  · split at h
    · split at h <;> cases h
    · split at h <;> cases h
    · split at h <;> cases h
    · cases h

/-- Only the first letter of an operator, the letter after d and the next letter of a word lead
into an operator word; each brings at least the letters that tell the word apart. -/
theorem picked_of_step {st : State} {c : Char} {name : String} {word : WordOperator}
    {typed : Nat} {sc : Scope} (hst : st.Picked)
    (h : st.step limits c = .ok (.operatorWord name word typed sc)) : word.picked ≤ typed := by
  cases st with
  | awaitOperator name' sc' =>
    simp only [State.step.eq_def] at h
    split at h
    · cases h
    · split at h <;> cases h <;> decide
  | derivedOrDoesNot name' sc' =>
    simp only [State.step.eq_def] at h
    split at h
    · cases h
      decide
    · cases h
      decide
    · split at h <;> cases h
  | operatorWord name' word' typed' sc' =>
    simp only [State.step.eq_def] at h
    obtain ⟨k, hk, h⟩ := ok_of_bind_eq_ok h
    cases k with
    | typed n =>
      cases h
      obtain ⟨-, rfl⟩ := stepKeyword_eq_typed hk
      exact Nat.le_succ_of_le hst
    | complete => cases h
  | flag name' value typed' sc' =>
    simp only [State.step.eq_def] at h
    split at h
    · split at h
      · exact (stepExpression_ne_operatorWord _ _ _ _ _ _ _ h).elim
      · cases h
    · split at h <;> cases h
  | expression operand sc' => exact (stepExpression_ne_operatorWord _ _ _ _ _ _ _ h).elim
  | junctionWord j typed' sc' =>
    simp only [State.step.eq_def] at h
    obtain ⟨k, -, h⟩ := ok_of_bind_eq_ok h
    cases k <;> cases h
  | root depth =>
    simp only [State.step.eq_def] at h
    split at h
    · cases h
    · split at h
      · split at h <;> cases h
      · obtain ⟨d, -, h⟩ := ok_of_bind_eq_ok h
        cases h
      · split at h <;> cases h
      · cases h
  | joined j sc' =>
    simp only [State.step.eq_def] at h
    split at h
    · cases h
    · split at h
      · obtain ⟨d, -, h⟩ := ok_of_bind_eq_ok h
        cases h
      · cases h
      · cases h
  | wildcard | property =>
    simp only [State.step.eq_def] at h
    split at h <;> cases h
  | symbol name' start sc' =>
    simp only [State.step.eq_def] at h
    split at h
    · cases h
    · split at h
      · cases h
      · split at h <;> cases h
  | awaitOperand name' op spaced sc' =>
    simp only [State.step.eq_def] at h
    split at h
    · cases h
    · split at h
      · cases h
      · split at h
        · split at h
          · cases h
          · split at h <;> cases h
        · split at h <;> cases h
  | text name' op content escaped sc' =>
    simp only [State.step.eq_def] at h
    split at h
    · split at h <;> cases h
    · split at h
      · cases h
      · split at h <;> cases h

/-- Each step keeps the letters that tell an operator word apart. -/
theorem step_picked {st st' : State} {c : Char} (hst : st.Picked)
    (h : st.step limits c = .ok st') : st'.Picked := by
  cases st' with
  | operatorWord name word typed sc => exact picked_of_step hst h
  | root | wildcard | property | awaitOperator | symbol | derivedOrDoesNot | awaitOperand | text
  | flag | expression | junctionWord | joined => trivial

/-- Every state a reader reaches from the root holds the letters that tell its word apart. -/
theorem feed_picked {st st' : State} {cs : List Char} (hst : st.Picked)
    (h : st.feed limits cs = .ok st') : st'.Picked := by
  induction cs generalizing st with
  | nil =>
    cases h
    exact hst
  | cons c cs ih =>
    rw [feed_cons] at h
    obtain ⟨st₁, hs, h⟩ := ok_of_bind_eq_ok h
    exact ih (step_picked hst hs) h

/-- Where a step stops a keyword at a blank, the state holds what it reports, an incomplete
keyword of its site. -/
theorem step_eq_unexpectedOperator {st : State} {c : Char} {p : String}
    (hwf : st.WellFormed limits) (h : st.step limits c = .error (.unexpectedOperator p)) :
    isBlank c = true ∧
      ∃ site, st.keywordPart = some (site, p.toList) ∧ site.Incomplete p.toList := by
  cases refusal_of_step h with
  | dCut hc => exact ⟨hc, .operator, by simp [keywordPart], KeywordSite.incomplete_d⟩
  | operatorWord hk =>
    obtain ⟨hc, hp, hinc⟩ := hk.incomplete (WordOperator.spelling_mem_keywords _) hwf.1
    exact ⟨hc, .operator, by rw [hp]; rfl, hinc⟩
  | junctionWord hk =>
    obtain ⟨hc, hp, hinc⟩ := hk.incomplete (Junction.keyword_mem_keywords _) hwf.1
    exact ⟨hc, .junction, by rw [hp]; rfl, hinc⟩
  | flagExpression _ _ he => cases he
  | expression he => cases he

/-- Where a step refuses a character that no keyword goes on with, the state stands at a
keyword's site, and the report is what it holds of the keyword and the character. -/
theorem step_eq_unexpectedOperatorBeginning {st : State} {c : Char} {f : String}
    (hwf : st.WellFormed limits) (hpick : st.Picked)
    (h : st.step limits c = .error (.unexpectedOperatorBeginning f)) :
    ∃ site u, st.keywordPart = some (site, u) ∧ f.toList = u ++ [c] ∧ ¬ site.Fits (u ++ [c]) := by
  cases refusal_of_step h with
  | noOperator _ hmem =>
    refine ⟨.operator, [], rfl, by simp, ?_⟩
    simp only [List.mem_cons, List.not_mem_nil, or_false, not_or] at hmem
    simp [KeywordSite.Fits, hmem]
  | dStray he ho _ =>
    refine ⟨.operator, ['d'], rfl, by simp, ?_⟩
    simp [KeywordSite.Fits, he, ho]
  | operatorWord hk =>
    obtain ⟨hf, hmiss⟩ := hk.misfit (KeywordSite.picks_operator hpick)
    exact ⟨.operator, _, rfl, hf, hmiss⟩
  | flagExpression hdrop _ he =>
    cases he with
    | unexpected _ _ ha ho =>
      refine ⟨.junction, [], by simp [keywordPart, hdrop], by simp, ?_⟩
      simp [KeywordSite.Fits, ha, ho]
  | expression he =>
    cases he with
    | unexpected _ _ ha ho =>
      refine ⟨.junction, [], rfl, by simp, ?_⟩
      simp [KeywordSite.Fits, ha, ho]
  | junctionWord hk =>
    obtain ⟨hf, hmiss⟩ := hk.misfit (KeywordSite.picks_junction hwf.1)
    exact ⟨.junction, _, rfl, hf, hmiss⟩

/-- Where the end of the text cuts a keyword short, the state holds what it reports, an
incomplete keyword of its site. -/
theorem finish_eq_unexpectedOperator {st : State} {p : String} (hwf : st.WellFormed limits)
    (h : st.finish = .error (.unexpectedOperator p)) :
    ∃ site, st.keywordPart = some (site, p.toList) ∧ site.Incomplete p.toList := by
  cases endRefusal_of_finish h with
  | dCut => exact ⟨.operator, by simp [keywordPart], KeywordSite.incomplete_d⟩
  | @operatorCut name word typed sc d rest hdrop =>
    obtain ⟨hp, hinc⟩ := typedPart_incomplete word.spelling_mem_keywords hdrop hwf.1
    exact ⟨.operator, by rw [hp]; rfl, hinc⟩
  | @junctionCut j typed sc d rest hdrop =>
    obtain ⟨hp, hinc⟩ := typedPart_incomplete j.keyword_mem_keywords hdrop hwf.1
    exact ⟨.junction, by rw [hp]; rfl, hinc⟩

/-- The end of the text never reports a misfit character: there is none. -/
theorem finish_ne_unexpectedOperatorBeginning (st : State) (f : String) :
    st.finish ≠ .error (.unexpectedOperatorBeginning f) := by
  intro h
  cases endRefusal_of_finish h

end State

/-- Where a reader stands at a keyword's site, it has read text after which a keyword of the
site begins, and then what it holds of the keyword. A whole flag completes the relational
expression, which ends an expression that a junction may follow. -/
theorem Viable.before_of_keywordPart {pre : List Char} {st : State} {site : KeywordSite}
    {u : List Char} (hv : Viable pre st) (h : st.keywordPart = some (site, u)) :
    ∃ v, site.Before v ∧ pre = v ++ u := by
  cases hv with
  | leaf hb hl hpre _ =>
    cases st with
    | awaitOperator name sc =>
      cases h
      obtain ⟨w, hp, hw, rfl⟩ := hl
      exact ⟨_, ⟨_, _, _, w, hb, hp, hw, rfl⟩, by simp [hpre]⟩
    | derivedOrDoesNot name sc =>
      cases h
      obtain ⟨w, hp, hw, rfl⟩ := hl
      exact ⟨_, ⟨_, _, _, w, hb, hp, hw, rfl⟩, by simp [hpre]⟩
    | operatorWord name word typed sc =>
      cases h
      obtain ⟨w, hp, hw, rfl⟩ := hl
      exact ⟨_, ⟨_, _, _, w, hb, hp, hw, rfl⟩, by simp [hpre]⟩
    | flag name value typed sc =>
      simp only [State.keywordPart] at h
      split at h
      · next hdrop =>
        cases h
        obtain ⟨w, hw, hl⟩ := hl
        obtain ⟨o, e, n, ts, ho, he, heq, -⟩ := hb.close (.leaf (Named.relational_flag hw hl hdrop))
        exact ⟨o ++ e ++ [], ⟨_, o, n, e, ts, [], ho, he, Blanks.nil, rfl⟩, by simp [hpre, heq]⟩
      · cases h
    | expression | junctionWord => exact hl.elim
    | root | wildcard | property | symbol | awaitOperand | text | joined => cases h
  | expression ho he hsep hpre _ =>
    cases h
    exact ⟨_, ⟨_, _, _, _, _, _, ho, he, hsep.blanks, rfl⟩, by simp [hpre]⟩
  | junctionWord ho he hsep hpre _ =>
    cases h
    exact ⟨_, ⟨_, _, _, _, _, _, ho, he, hsep.blanks, rfl⟩, hpre⟩
  | root | wildcard | joined => cases h

/-- What holds of every state a reader reaches from the root: it has read a viable beginning of
criteria text, its counters are in range, and an operator word holds the letters that tell it
apart. -/
theorem State.reached {limits : Limits} {pre : List Char} {st : State}
    (h : (State.root 0).feed limits pre = .ok st) :
    Viable pre st ∧ st.WellFormed limits ∧ st.Picked := by
  have hroot : (State.root 0).Picked := trivial
  exact ⟨by simpa using Viable.initial.feed h, State.feed_wellFormed (Nat.zero_le _) h,
    State.feed_picked hroot h⟩

namespace Query

/-- What a refused keyword reports is exactly what the text holds where the reading stopped.
A keyword cut short is reported with the part read, a non-empty proper beginning of a keyword of
its site, and the reading stopped right after those characters, at a blank or at the end. A
character that no keyword goes on with is reported after the part of the keyword read since its
site began, possibly none of it or all of it, and begins no keyword of the site together with
it. Cut short at the end of the text or at a blank, the reader's state holds the part reported. -/
theorem parse_keyword_errors (limits : Limits) (s : String) :
    (∀ p, Query.parse limits s = .error (.unexpectedOperator p) →
      ∃ (site : KeywordSite) (v : List Char), site.Before v ∧ site.Incomplete p.toList ∧
        StopsAfter limits s.toList (v ++ p.toList) (.unexpectedOperator p) ∧
        ∀ x t, s.toList = v ++ p.toList ++ x :: t → isBlank x = true) ∧
    (∀ f, Query.parse limits s = .error (.unexpectedOperatorBeginning f) →
      ∃ (site : KeywordSite) (v u : List Char) (x : Char) (t : List Char),
        s.toList = v ++ u ++ x :: t ∧ f.toList = u ++ [x] ∧ site.Before v ∧
        StopsAfter limits s.toList (v ++ u) (.unexpectedOperatorBeginning f) ∧
        site.Fits u ∧ ¬ site.Fits (u ++ [x])) := by
  refine ⟨fun p h => ?_, fun f h => ?_⟩
  · obtain ⟨pre, st, hpre, hend⟩ := (parse_eq_error_iff limits s _).1 h
    obtain ⟨hv, hwf, -⟩ := State.reached hpre
    obtain ⟨site, hpart, hinc, hblank⟩ : ∃ site, st.keywordPart = some (site, p.toList) ∧
        site.Incomplete p.toList ∧ ∀ x t, s.toList = pre ++ x :: t → isBlank x = true := by
      rcases hend with ⟨hs, hfinish⟩ | ⟨x, t, hs, hx⟩
      · obtain ⟨site, hpart, hinc⟩ := State.finish_eq_unexpectedOperator hwf hfinish
        refine ⟨site, hpart, hinc, fun x t hs' => ?_⟩
        rw [hs] at hs'
        simp at hs'
      · obtain ⟨hc, site, hpart, hinc⟩ := State.step_eq_unexpectedOperator hwf hx
        refine ⟨site, hpart, hinc, fun x' t' hs' => ?_⟩
        rw [hs] at hs'
        obtain ⟨rfl, -⟩ := List.cons.inj (List.append_cancel_left hs')
        exact hc
    obtain ⟨v, hbefore, rfl⟩ := hv.before_of_keywordPart hpart
    exact ⟨site, v, hbefore, hinc, ⟨st, hpre, hend⟩, hblank⟩
  · obtain ⟨pre, st, hpre, ⟨-, hfinish⟩ | ⟨x, t, hs, hx⟩⟩ := (parse_eq_error_iff limits s _).1 h
    · exact absurd hfinish (State.finish_ne_unexpectedOperatorBeginning st f)
    obtain ⟨hv, hwf, hpick⟩ := State.reached hpre
    obtain ⟨site, u, hpart, hf, hmiss⟩ := State.step_eq_unexpectedOperatorBeginning hwf hpick hx
    obtain ⟨v, hbefore, rfl⟩ := hv.before_of_keywordPart hpart
    exact ⟨site, v, u, x, t, by simpa using hs, hf, hbefore, ⟨st, hpre, .inr ⟨x, t, hs, hx⟩⟩,
      State.fits_of_keywordPart hpart, hmiss⟩

/-- Read with the default limits, a junction keyword that goes astray at its third letter is
reported with the letters read and that letter, which begin no junction. -/
theorem parse_stray_junction_letter :
    Query.parse {} "a = \"x\" anx" = .error (.unexpectedOperatorBeginning "anx") ∧
      ∃ (site : KeywordSite) (v u : List Char) (x : Char) (t : List Char),
        "a = \"x\" anx".toList = v ++ u ++ x :: t ∧ "anx".toList = u ++ [x] ∧ site.Before v ∧
          site.Fits u ∧ ¬ site.Fits (u ++ [x]) := by
  have h : Query.parse {} "a = \"x\" anx" = .error (.unexpectedOperatorBeginning "anx") := by rfl
  obtain ⟨site, v, u, x, t, hs, hf, hb, -, hfits, hmiss⟩ := (parse_keyword_errors {} _).2 _ h
  exact ⟨h, site, v, u, x, t, hs, hf, hb, hfits, hmiss⟩

end Query

end SearchCriteria
