/-
# The expression printer round-trips through the grammar

The text of a well-formed derivation reads back as its tree (`Cst.reads`).
With the parser's soundness and the unambiguity of derivations
(`Concrete`), a derivation's text reads back as its own tree exactly when
the derivation is well formed (`parse_text_iff`). The printer writes a
well-formed derivation (`toCst`, `wf_toCst`); so for every expression-family
tree `t`, `parse t.toString` reads back `t`, up to the spans of its `sub`
leaves, which are not printed (`parse_toString`), and two expression trees
that differ in more than those spans never print the same text.

The proof reads the text level by level. A text `T` followed by any text
`R` is read by the level of the grammar its derivation is well formed at:
at the postfix level the loop after `t` goes on from `R` (`PostfixReads`),
the prefix level returns `t` and stops before `R` (`PrefixReads`), the cast
level returns `t` followed by the casts at the front of `R` (`CastReads`).
A parenthesized text is an atom at every level (`CastReads.paren`), and a
level that reads a text lifts to the levels above it
(`PostfixReads.prefixReads`, `PrefixReads.castReads`). The fuel each level
needs is three calls for each character of its text.

Key definitions: `PostfixReads`, `PrefixReads`, `CastReads`, `Reads`, `toCst`.
Key theorems: `Cst.reads`, `parse_text_iff`, `wf_toCst`, `parse_toString`.
-/
import C2RustRewrite.Concrete

namespace C2RustRewrite
namespace ExprGrammar

open Rewrite

theorem noDigit_nil : NoDigit [] := fun _ h => nomatch h

theorem noDigit_cons {c : Char} (r : List Char) (h : c.isDigit = false) : NoDigit (c :: r) := by
  rintro _ ⟨⟩
  exact h

/-- A token starting with `c` may be followed by any text. -/
theorem follow_tok {tok : List Char} {c : Char} (r : List Char) (h : tok.head? = some c)
    (hd : c.isDigit = false) (hb : c ≠ '[') : NoDigit (tok ++ r) ∧ (tok ++ r).head? ≠ some '[' := by
  obtain ⟨cs, rfl⟩ := List.head?_eq_some_iff.mp h
  exact ⟨noDigit_cons _ hd, by simpa using hb⟩

/-! ### What each level reads -/

/-- The postfix level reads `t` from `T`; the loop after it goes on from the rest. -/
def PostfixReads (T : List Char) (t : Rewrite) : Prop :=
  ∀ R, NoDigit R → ∀ k r, (∀ k', k ≤ k' → postLoop k' t R = some r) →
    ∀ n, 3 * T.length + 2 + k ≤ n → parsePostfix n (T ++ R) = some r

/-- The prefix level reads `t` from `T` and stops at the rest. -/
def PrefixReads (T : List Char) (t : Rewrite) : Prop :=
  ∀ R, NoDigit R → R.head? ≠ some '[' →
    ∀ n, 3 * T.length + 4 ≤ n → parsePrefix n (T ++ R) = some (t, R)

/-- The cast level reads `t` from `T`, then the casts at the front of the rest. -/
def CastReads (T : List Char) (t : Rewrite) : Prop :=
  ∀ R, NoDigit R → R.head? ≠ some '[' →
    ∀ n, 3 * T.length + 5 ≤ n → parseCast n (T ++ R) = some (castLoop t R)

/-- The levels that a text printed at precedence `p` is read at. -/
def Reads (T : List Char) (t : Rewrite) (p : ℕ) : Prop :=
  (3 ≤ p → PostfixReads T t) ∧ (2 ≤ p → PrefixReads T t) ∧ CastReads T t

theorem PostfixReads.prefixReads {T : List Char} {t : Rewrite} (h : PostfixReads T t)
    (hT : ∃ c, T.head? = some c ∧ c ≠ '&' ∧ c ≠ '*') : PrefixReads T t := by
  obtain ⟨c, hc, h1, h2⟩ := hT
  obtain ⟨T, rfl⟩ := List.head?_eq_some_iff.mp hc
  intro R hR hb n hn
  obtain ⟨m, rfl⟩ : ∃ m, n = m + 1 := ⟨n - 1, by omega⟩
  rw [List.cons_append, parsePrefix_other m _ h1 h2, ← List.cons_append]
  refine h R hR 1 (t, R) (fun k' hk' => ?_) m (by simp only [List.length_cons] at hn ⊢; omega)
  obtain ⟨j, rfl⟩ : ∃ j, k' = j + 1 := ⟨k' - 1, by omega⟩
  exact postLoop_stop j t hb

theorem PrefixReads.castReads {T : List Char} {t : Rewrite} (h : PrefixReads T t) :
    CastReads T t := by
  intro R hR hb n hn
  obtain ⟨m, rfl⟩ : ∃ m, n = m + 1 := ⟨n - 1, by omega⟩
  simp [parseCast, h R hR hb m (by omega)]

/-- A parenthesized text is an atom. -/
theorem CastReads.paren {T : List Char} {t : Rewrite} (h : CastReads T t) :
    PostfixReads ('(' :: T ++ [')']) t := by
  intro R hR k r hk n hn
  simp only [List.length_cons, List.length_append, List.length_singleton] at hn
  obtain ⟨m, rfl⟩ : ∃ m, n = m + 2 := ⟨n - 2, by omega⟩
  have hc : parseCast m (T ++ ')' :: R) = some (t, ')' :: R) :=
    h (')' :: R) (noDigit_cons R rfl) (by simp) m (by omega)
  rw [parsePostfix_succ, show '(' :: T ++ [')'] ++ R = '(' :: (T ++ ')' :: R) by simp,
    parseAtom_paren hc]
  exact hk (m + 1) (by omega)

theorem reads_of_postfix {T : List Char} {t : Rewrite} (h : PostfixReads T t)
    (hT : ∃ c, T.head? = some c ∧ c ≠ '&' ∧ c ≠ '*') (p : ℕ) : Reads T t p :=
  ⟨fun _ => h, fun _ => h.prefixReads hT, (h.prefixReads hT).castReads⟩

theorem reads_paren {T : List Char} {t : Rewrite} (h : CastReads T t) (p : ℕ) :
    Reads ('(' :: T ++ [')']) t p :=
  reads_of_postfix h.paren ⟨'(', rfl, by decide, by decide⟩ p

theorem reads_prefix {T : List Char} {t : Rewrite} (h : PrefixReads T t) {p : ℕ} (hp : p ≤ 2) :
    Reads T t p :=
  ⟨fun h3 => absurd h3 (by omega), fun _ => h, h.castReads⟩

/-- An atom of the grammar: the postfix level reads it in one step. -/
theorem atom_postfixReads {T : List Char} {t : Rewrite}
    (h : ∀ n R, NoDigit R → 3 * T.length ≤ n + 1 → parseAtom (n + 1) (T ++ R) = some (t, R)) :
    PostfixReads T t := by
  intro R hR k r hk n hn
  obtain ⟨m, rfl⟩ : ∃ m, n = m + 2 := ⟨n - 2, by omega⟩
  rw [parsePostfix_succ, h m R hR (by omega)]
  exact hk (m + 1) (by omega)

/-! ### The operators -/

theorem postfixReads_addrOf (m : Mutability) {T : List Char} {t : Rewrite} (h : CastReads T t) :
    PostfixReads (addrOfMacro m ++ '(' :: T ++ [')']) (addrOf t m) :=
  atom_postfixReads fun n R _ hn => by
    have hc := h (')' :: R) (noDigit_cons R rfl) (by simp) n
    simp only [List.length_append, List.length_cons, List.length_singleton] at hn
    have hm : 19 ≤ (addrOfMacro m).length := by cases m <;> decide
    simpa using parseAtom_addrOf m (hc (by omega))

theorem postfixReads_index {A I : List Char} {a i : Rewrite} (ha : PostfixReads A a)
    (hi : CastReads I i) : PostfixReads (A ++ '[' :: I ++ [']']) (index a i) := by
  intro R hR k r hk n hn
  have step : ∀ k', k + 3 * I.length + 6 ≤ k' → postLoop k' a ('[' :: (I ++ ']' :: R)) = some r := by
    intro k' hk'
    obtain ⟨j, rfl⟩ : ∃ j, k' = j + 1 := ⟨k' - 1, by omega⟩
    rw [postLoop_index _ (hi (']' :: R) (noDigit_cons R rfl) (by simp) j (by omega))]
    exact hk j (by omega)
  simp only [List.length_append, List.length_cons, List.length_singleton] at hn
  simpa using ha ('[' :: (I ++ ']' :: R)) (noDigit_cons _ rfl) _ r step n (by omega)

theorem postfixReads_sliceTail {A I : List Char} {a i : Rewrite} (ha : PostfixReads A a)
    (hi : CastReads I i) : PostfixReads (A ++ '[' :: I ++ " ..]".toList) (sliceTail a i) := by
  intro R hR k r hk n hn
  have step : ∀ k', k + 3 * I.length + 6 ≤ k' →
      postLoop k' a ('[' :: (I ++ (" ..]".toList ++ R))) = some r := by
    intro k' hk'
    obtain ⟨j, rfl⟩ : ∃ j, k' = j + 1 := ⟨k' - 1, by omega⟩
    have hc : parseCast j (I ++ (" ..]".toList ++ R)) = some (i, " ..]".toList ++ R) := by
      rw [hi (" ..]".toList ++ R) (noDigit_cons _ rfl) (by simp) j (by omega)]
      rfl
    rw [postLoop_sliceTail _ hc]
    exact hk j (by omega)
  simp only [List.length_append, List.length_cons, show " ..]".toList.length = 4 from rfl] at hn
  simpa using ha ('[' :: (I ++ (" ..]".toList ++ R))) (noDigit_cons _ rfl) _ r step n (by omega)

/-- `&` reads `mut ` as part of the operator: the operand must not start with `m`. -/
theorem prefixReads_ref (m : Mutability) {T : List Char} {t : Rewrite}
    (hT : ∃ c, T.head? = some c ∧ c ≠ 'm') (h : PrefixReads T t) :
    PrefixReads (refPrefix m ++ T) (ref t m) := by
  intro R hR hb n hn
  obtain ⟨k, rfl⟩ : ∃ k, n = k + 1 := ⟨n - 1, by omega⟩
  cases m
  · obtain ⟨c, hc, hm⟩ := hT
    obtain ⟨cs, hcs⟩ := List.head?_eq_some_iff.mp hc
    have hs : stripTok "mut ".toList (T ++ R) = none := by
      rw [hcs]; exact stripTok_cons_ne _ _ (Ne.symm hm)
    simp only [refPrefix, List.singleton_append, List.cons_append, List.nil_append] at hn ⊢
    rw [parsePrefix_refNot k hs, h R hR hb k (by simp only [List.length_cons] at hn; omega)]
    rfl
  · simp only [refPrefix, List.append_assoc, List.length_append,
      show "&mut ".toList.length = 5 from rfl] at hn ⊢
    rw [parsePrefix_refMut, h R hR hb k (by omega)]
    rfl

theorem prefixReads_deref {T : List Char} {t : Rewrite} (h : PrefixReads T t) :
    PrefixReads ('*' :: T) (deref t) := by
  intro R hR hb n hn
  obtain ⟨k, rfl⟩ : ∃ k, n = k + 1 := ⟨n - 1, by omega⟩
  simp only [List.length_cons] at hn
  rw [List.cons_append, parsePrefix_deref, h R hR hb k (by omega)]
  rfl

theorem castReads_cast {T : List Char} {t : Rewrite} (h : CastReads T t) :
    CastReads (T ++ " as usize".toList) (castUsize t) := by
  intro R hR hb n hn
  simp only [List.length_append, show " as usize".toList.length = 9 from rfl] at hn
  have hf : NoDigit (" as usize".toList ++ R) ∧ (" as usize".toList ++ R).head? ≠ some '[' :=
    follow_tok R rfl rfl (by decide)
  rw [List.append_assoc, h _ hf.1 hf.2 n (by omega), castLoop_cast]

/-! ### Every well-formed derivation reads back -/

namespace Cst

/-- A derivation's text starts with a character that is not `m`, and, well
formed at the postfix level, neither with `&` nor with `*`. -/
theorem head_text : ∀ (c : Cst) (p : ℕ), c.wf p = true →
    ∃ ch, c.text.head? = some ch ∧ ch ≠ 'm' ∧ (3 ≤ p → ch ≠ '&' ∧ ch ≠ '*')
  | dollarE, _, _ | num .., _, _ => ⟨'$', rfl, by decide, fun _ => by decide⟩
  | zero, _, _ => ⟨'0', rfl, by decide, fun _ => by decide⟩
  | paren _, _, _ => ⟨'(', rfl, by decide, fun _ => by decide⟩
  | addrOf _ m, _, _ => ⟨'c', by cases m <;> rfl, by decide, fun _ => by decide⟩
  | ref _ m, _, h => ⟨'&', by cases m <;> rfl, by decide, fun _ => by simp [wf] at h; omega⟩
  | deref _, _, h => ⟨'*', rfl, by decide, fun _ => by simp [wf] at h; omega⟩
  | index a _, _, h | sliceTail a _, _, h => by
    simp only [wf, Bool.and_eq_true, decide_eq_true_eq] at h
    obtain ⟨ch, hc, hm, h3⟩ := head_text a 3 h.1.2
    exact ⟨ch, by simp [text, hc], hm, fun _ => h3 le_rfl⟩
  | cast c, _, h => by
    simp only [wf, Bool.and_eq_true, decide_eq_true_eq] at h
    obtain ⟨ch, hc, hm, -⟩ := head_text c 1 h.2
    exact ⟨ch, by simp [text, hc], hm, by omega⟩

/-- **Every level reads the text of every derivation well formed at it.** -/
theorem reads : ∀ (c : Cst) (p : ℕ), c.wf p = true → Reads c.text c.ast p
  | dollarE, p, _ => reads_of_postfix
      (atom_postfixReads fun _ _ _ _ => rfl : PostfixReads ['$', 'e'] .identity)
      ⟨'$', rfl, by decide, by decide⟩ p
  | num ds hds, p, h => reads_of_postfix
      (atom_postfixReads fun n _ hR _ => parseAtom_num n (by simpa [wf] using h) hds hR)
      ⟨'$', rfl, by decide, by decide⟩ p
  | zero, p, _ => reads_of_postfix (atom_postfixReads fun _ _ _ _ => rfl : PostfixReads ['0'] .litZero)
      ⟨'0', rfl, by decide, by decide⟩ p
  | paren c, p, h => reads_paren (reads c 0 h).2.2 p
  | addrOf c m, p, h => reads_of_postfix (postfixReads_addrOf m (reads c 0 h).2.2)
      ⟨'c', by cases m <;> rfl, by decide, by decide⟩ p
  | ref c m, _, h => by
    simp only [wf, Bool.and_eq_true, decide_eq_true_eq] at h
    obtain ⟨ch, hc, hm, -⟩ := head_text c 2 h.2
    exact reads_prefix (prefixReads_ref m ⟨ch, hc, hm⟩ ((reads c 2 h.2).2.1 le_rfl)) h.1
  | deref c, _, h => by
    simp only [wf, Bool.and_eq_true, decide_eq_true_eq] at h
    exact reads_prefix (prefixReads_deref ((reads c 2 h.2).2.1 le_rfl)) h.1
  | index a i, p, h => by
    simp only [wf, Bool.and_eq_true, decide_eq_true_eq] at h
    obtain ⟨ch, hc, -, h3⟩ := head_text a 3 h.1.2
    exact reads_of_postfix (postfixReads_index ((reads a 3 h.1.2).1 le_rfl) (reads i 0 h.2).2.2)
      ⟨ch, by simp [text, hc], h3 le_rfl⟩ p
  | sliceTail a i, p, h => by
    simp only [wf, Bool.and_eq_true, decide_eq_true_eq] at h
    obtain ⟨ch, hc, -, h3⟩ := head_text a 3 h.1.2
    exact reads_of_postfix (postfixReads_sliceTail ((reads a 3 h.1.2).1 le_rfl) (reads i 0 h.2).2.2)
      ⟨ch, by simp [text, hc], h3 le_rfl⟩ p
  | cast c, _, h => by
    simp only [wf, Bool.and_eq_true, decide_eq_true_eq] at h
    exact ⟨fun h3 => absurd h3 (by omega), fun h2 => absurd h2 (by omega),
      castReads_cast (reads c 1 h.2).2.2⟩

end Cst

/-- `parse` reads back every well-formed derivation from its text. -/
theorem parse_text {c : Cst} (h : c.wf 0 = true) : parse ⟨c.text⟩ = some c.ast := by
  have := (c.reads 0 h).2.2 [] noDigit_nil (by simp) _ le_rfl
  simp only [List.append_nil] at this
  simp [parse, String.length, this]
  rfl

/-- **The grammar's derivations.** A derivation's text reads back as its own
tree exactly when the derivation is well formed. -/
theorem parse_text_iff (c : Cst) : parse ⟨c.text⟩ = some c.ast ↔ c.wf 0 = true :=
  ⟨wf_of_parse, parse_text⟩

/-! ### The derivation the printer writes -/

/-- `parenthesize_if` on derivations. -/
def parenIf (cond : Bool) (c : Cst) : Cst := if cond then .paren c else c

@[simp] theorem text_parenIf (cond : Bool) (c : Cst) :
    (parenIf cond c).text = parenthesizeIf cond c.text := by
  cases cond <;> rfl

@[simp] theorem ast_parenIf (cond : Bool) (c : Cst) : (parenIf cond c).ast = c.ast := by
  cases cond <;> rfl

/-- A node admitted at every precedence up to `k`, parenthesized above it,
is well formed at every precedence. -/
theorem wf_parenIf {k p : ℕ} {x : Cst} (h : ∀ q ≤ k, x.wf q = true) :
    (parenIf (p > k) x).wf p = true := by
  by_cases hp : p > k
  · simp [parenIf, hp, Cst.wf, h 0 (Nat.zero_le _)]
  · simp [parenIf, hp, h p (by omega)]

/-- The derivation `Rewrite::pretty` writes for `rw` at precedence `prec`,
each pair `parenthesize_if` inserts kept as a node. The type builders are
no expressions; `isExpr` leaves them out. -/
def toCst : Rewrite → ℕ → Cst
  | identity, _ => .dollarE
  | sub i _, _ => .num (Nat.toDigits 10 i) (List.all_eq_true.2 (toDigits_spec i).2.1)
  | ref rw mutbl, prec => parenIf (prec > 2) (.ref (toCst rw 2) mutbl)
  | addrOf rw mutbl, _ => .addrOf (toCst rw 0) mutbl
  | deref rw, prec => parenIf (prec > 2) (.deref (toCst rw 2))
  | index arr idx, prec => parenIf (prec > 3) (.index (toCst arr 3) (toCst idx 0))
  | sliceTail arr idx, prec => parenIf (prec > 3) (.sliceTail (toCst arr 3) (toCst idx 999))
  | castUsize rw, prec => parenIf (prec > 1) (.cast (toCst rw 1))
  | _, _ => .zero

/-- The derivation's text is the printer's. -/
theorem text_toCst : ∀ t : Rewrite, t.isExpr = true → ∀ p, (toCst t p).text = t.pretty p
  | identity, _, _ | sub .., _, _ | litZero, _, _ => rfl
  | ref rw _, h, _ | deref rw, h, _ | castUsize rw, h, _ | addrOf rw _, h, _ => by
    simp [toCst, pretty, Cst.text, text_toCst rw h]
  | index a i, h, _ | sliceTail a i, h, _ => by
    simp only [isExpr, Bool.and_eq_true] at h
    simp [toCst, pretty, Cst.text, text_toCst a h.1, text_toCst i h.2]

/-- The derivation stands for the tree, spans aside. -/
theorem ast_toCst : ∀ t : Rewrite, t.isExpr = true → ∀ p, (toCst t p).ast = t.eraseSpans
  | identity, _, _ | litZero, _, _ => rfl
  | sub i _, _, _ => by simp [toCst, Cst.ast, eraseSpans, (toDigits_spec i).2.2]
  | ref rw _, h, _ | deref rw, h, _ | castUsize rw, h, _ | addrOf rw _, h, _ => by
    simp [toCst, Cst.ast, eraseSpans, ast_toCst rw h]
  | index a i, h, _ | sliceTail a i, h, _ => by
    simp only [isExpr, Bool.and_eq_true] at h
    simp [toCst, Cst.ast, eraseSpans, ast_toCst a h.1, ast_toCst i h.2]

/-- The printer writes a derivation well formed at the precedence it prints for. -/
theorem wf_toCst : ∀ t : Rewrite, t.isExpr = true → ∀ p, (toCst t p).wf p = true
  | identity, _, _ | litZero, _, _ => rfl
  | sub i _, _, _ => by simpa [toCst, Cst.wf] using (toDigits_spec i).1
  | addrOf rw _, h, _ => wf_toCst rw h 0
  | ref rw _, h, _ | deref rw, h, _ => wf_parenIf fun q hq => by simp [Cst.wf, hq, wf_toCst rw h 2]
  | castUsize rw, h, _ => wf_parenIf fun q hq => by simp [Cst.wf, hq, wf_toCst rw h 1]
  | index a i, h, _ => by
    simp only [isExpr, Bool.and_eq_true] at h
    exact wf_parenIf fun q hq => by simp [Cst.wf, hq, wf_toCst a h.1 3, wf_toCst i h.2 0]
  | sliceTail a i, h, _ => by
    simp only [isExpr, Bool.and_eq_true] at h
    exact wf_parenIf fun q hq => by
      simp [Cst.wf, hq, wf_toCst a h.1 3, Cst.wf_mono (wf_toCst i h.2 999) (Nat.zero_le _)]

/-- `parse` reads back every expression tree from its text. -/
theorem parse_pretty (t : Rewrite) (h : t.isExpr = true) : parse t.toString = some t.eraseSpans := by
  have := parse_text (wf_toCst t h 0)
  rwa [text_toCst t h, ast_toCst t h] at this

/-- **The expression printer round-trips.** Parsing the text of an
expression-family tree gives the tree back, up to the spans of its `sub`
leaves; so two such trees print the same text only if they differ in those
spans alone. -/
theorem parse_toString :
    (∀ t : Rewrite, t.isExpr = true → parse t.toString = some t.eraseSpans) ∧
      ∀ t₁ t₂ : Rewrite, t₁.isExpr = true → t₂.isExpr = true →
        t₁.toString = t₂.toString → t₁.eraseSpans = t₂.eraseSpans :=
  ⟨parse_pretty, fun t₁ t₂ h₁ h₂ he =>
    Option.some.inj ((parse_pretty t₁ h₁).symm.trans (he ▸ parse_pretty t₂ h₂))⟩

theorem parse_toString_sliceTail :
    (sliceTail (ref identity .mut) (castUsize (sub 3 ⟨5, 9⟩))).isExpr = true ∧
      parse (sliceTail (ref identity .mut) (castUsize (sub 3 ⟨5, 9⟩))).toString =
        some (sliceTail (ref identity .mut) (castUsize (sub 3 Span.dummy))) :=
  ⟨rfl, parse_toString.1 _ rfl⟩

end ExprGrammar

end C2RustRewrite
