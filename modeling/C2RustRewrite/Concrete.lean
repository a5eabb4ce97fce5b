/-
# Derivations of the expression grammar

A `Cst` is a derivation of the grammar `ExprGrammar` reads: the text of an
expression with every parenthesis it was written with, and each numeral as
it was spelled. `Cst.text` is its text, `Cst.ast` the tree it stands for,
and `Cst.wf p` says that its operators bind as the grammar's levels require
in a context of precedence `p`.

Two facts tie the parser to derivations. The parser is sound: a text it
reads is the text of a well-formed derivation of the tree it returns
(`parse_sound`). And a derivation is determined by its text and its tree
(`text_ast_inj`): counting `[` finds where an index operator's bracket
stands, and a pair of parentheses is told from the node it encloses by the
text's first and last characters. So a text reads back as a derivation's own
tree only if the derivation is well formed (`wf_of_parse`): written against
the grammar's precedence anywhere, it is rejected or read as another tree.

Key definitions: `Cst`, `Cst.text`, `Cst.ast`, `Cst.wf`, `Derives`, `Sound`.
Key theorems: `parse_sound`, `text_ast_inj`, `wf_of_parse`.
-/
import C2RustRewrite.ExprGrammar

namespace C2RustRewrite
namespace ExprGrammar

open Rewrite

/-- A derivation of the grammar. A numeral keeps its digits as written. -/
inductive Cst where
  | dollarE
  | num (ds : List Char) (hds : ds.all Char.isDigit = true)
  | zero
  | paren (c : Cst)
  | addrOf (c : Cst) (m : Mutability)
  | ref (c : Cst) (m : Mutability)
  | deref (c : Cst)
  | index (arr idx : Cst)
  | sliceTail (arr idx : Cst)
  | cast (c : Cst)
  deriving DecidableEq, Repr

namespace Cst

/-- The text of a derivation. -/
def text : Cst → List Char
  | dollarE => "$e".toList
  | num ds _ => '$' :: ds
  | zero => ['0']
  | paren c => '(' :: c.text ++ [')']
  | addrOf c m => addrOfMacro m ++ '(' :: c.text ++ [')']
  | ref c m => refPrefix m ++ c.text
  | deref c => '*' :: c.text
  | index a i => a.text ++ '[' :: i.text ++ [']']
  | sliceTail a i => a.text ++ '[' :: i.text ++ " ..]".toList
  | cast c => c.text ++ " as usize".toList

/-- The tree a derivation stands for: its parentheses leave no trace. -/
def ast : Cst → Rewrite
  | dollarE => .identity
  | num ds _ => .sub (digitsValue ds) Span.dummy
  | zero => .litZero
  | paren c => c.ast
  | addrOf c m => .addrOf c.ast m
  | ref c m => .ref c.ast m
  | deref c => .deref c.ast
  | index a i => .index a.ast i.ast
  | sliceTail a i => .sliceTail a.ast i.ast
  | cast c => .castUsize c.ast

/-- Well formed in a context of precedence `p`: each operator stands where
its level is admitted (cast 1, prefix 2, postfix 3), and no numeral is empty. -/
def wf : Cst → ℕ → Bool
  | dollarE, _ | zero, _ => true
  | num ds _, _ => !ds.isEmpty
  | paren c, _ | addrOf c _, _ => c.wf 0
  | ref c _, p | deref c, p => decide (p ≤ 2) && c.wf 2
  | index a i, p | sliceTail a i, p => decide (p ≤ 3) && a.wf 3 && i.wf 0
  | cast c, p => decide (p ≤ 1) && c.wf 1

theorem wf_mono {c : Cst} {p q : ℕ} (h : c.wf q = true) (hpq : p ≤ q) : c.wf p = true := by
  cases c <;> simp_all [wf] <;> omega

end Cst

/-! ### The parser is sound -/

/-- `s` is the text of a derivation of `t`, well formed at `p`, followed by `r`. -/
def Derives (p : ℕ) (s : List Char) (t : Rewrite) (r : List Char) : Prop :=
  ∃ c : Cst, c.wf p = true ∧ s = c.text ++ r ∧ c.ast = t

theorem Derives.mono {p q : ℕ} {s r : List Char} {t : Rewrite} (h : Derives q s t r)
    (hpq : p ≤ q) : Derives p s t r :=
  let ⟨c, hc, hs, ht⟩ := h
  ⟨c, Cst.wf_mono hc hpq, hs, ht⟩

theorem stripTok_eq_some : ∀ {tok s r : List Char}, stripTok tok s = some r → s = tok ++ r
  | [], _, _, h => by cases h; rfl
  | _ :: _, [], _, h => by cases h
  | c :: tok, d :: s, r, h => by
    by_cases hcd : c = d
    · subst hcd
      simp only [stripTok, if_true] at h
      rw [stripTok_eq_some h, List.cons_append]
    · simp [stripTok, hcd] at h

theorem readDigits_spec : ∀ s : List Char,
    (readDigits s).1 ++ (readDigits s).2 = s ∧ (readDigits s).1.all Char.isDigit = true
  | [] => ⟨rfl, rfl⟩
  | c :: s => by
    by_cases hc : c.isDigit = true
    · simpa [readDigits, hc] using readDigits_spec s
    · simp [readDigits, hc]

theorem readDigits_eq {s ds r : List Char} (h : readDigits s = (ds, r)) :
    ds ++ r = s ∧ ds.all Char.isDigit = true := by
  simpa [h] using readDigits_spec s

theorem addrOfHead_eq_some {s r : List Char} {m : Mutability} (h : addrOfHead s = some (m, r)) :
    s = addrOfMacro m ++ '(' :: r := by
  unfold addrOfHead at h
  split at h
  · next r' hs => cases h; simpa using stripTok_eq_some hs
  · obtain ⟨r', hs, he⟩ := Option.map_eq_some'.1 h
    cases he
    simpa using stripTok_eq_some hs

/-- The cast loop adds `as usize` to a derivation once for each time it
reads it. -/
theorem castLoop_sound (a : Rewrite) (s : List Char) {c : Cst} {t r} (ha : c.ast = a)
    (hc : c.wf 1 = true) (h : castLoop a s = (t, r)) : Derives 0 (c.text ++ s) t r := by
  unfold castLoop at h
  split at h
  · next s' =>
    have := castLoop_sound (castUsize a) s' (c := .cast c) (by rw [Cst.ast, ha])
      (by simpa [Cst.wf] using hc) h
    simpa [Cst.text] using this
  · obtain ⟨rfl, rfl⟩ := Prod.mk.inj h
    exact ⟨c, Cst.wf_mono hc (Nat.zero_le 1), rfl, ha⟩
termination_by s.length

/-- What each level of the parser returns at fuel `n` is derived. -/
structure Sound (n : ℕ) : Prop where
  cast : ∀ {s t r}, parseCast n s = some (t, r) → Derives 0 s t r
  pre : ∀ {s t r}, parsePrefix n s = some (t, r) → Derives 2 s t r
  post : ∀ {s t r}, parsePostfix n s = some (t, r) → Derives 3 s t r
  loop : ∀ {a : Cst} {s t r}, a.wf 3 = true → postLoop n a.ast s = some (t, r) →
    Derives 3 (a.text ++ s) t r
  atom : ∀ {s t r}, parseAtom n s = some (t, r) → Derives 4 s t r

section Step

variable {n : ℕ} (hn : Sound n)
include hn

theorem Sound.cast_succ {s t r} (h : parseCast (n + 1) s = some (t, r)) : Derives 0 s t r := by
  obtain ⟨⟨a, r'⟩, hp, hc⟩ := Option.map_eq_some'.1 h
  obtain ⟨c, hw, rfl, rfl⟩ := hn.pre hp
  exact castLoop_sound _ _ rfl (Cst.wf_mono hw (by decide)) hc

theorem Sound.pre_succ {s t r} (h : parsePrefix (n + 1) s = some (t, r)) : Derives 2 s t r := by
  unfold parsePrefix at h
  split at h <;> try obtain rfl := Nat.succ.inj ‹n + 1 = _›
  · cases h
  · split at h
    · next s' hs =>
      obtain ⟨⟨a, r'⟩, hp, he⟩ := Option.map_eq_some'.1 h
      cases he
      obtain ⟨c, hw, rfl, rfl⟩ := hn.pre hp
      exact ⟨.ref c .mut, by simpa [Cst.wf] using hw,
        by simp [stripTok_eq_some hs, Cst.text, refPrefix], rfl⟩
    · obtain ⟨⟨a, r'⟩, hp, he⟩ := Option.map_eq_some'.1 h
      cases he
      obtain ⟨c, hw, rfl, rfl⟩ := hn.pre hp
      exact ⟨.ref c .not, by simpa [Cst.wf] using hw, by simp [Cst.text, refPrefix], rfl⟩
  · obtain ⟨⟨a, r'⟩, hp, he⟩ := Option.map_eq_some'.1 h
    cases he
    obtain ⟨c, hw, rfl, rfl⟩ := hn.pre hp
    exact ⟨.deref c, by simpa [Cst.wf] using hw, rfl, rfl⟩
  · exact (hn.post h).mono (by decide)

theorem Sound.post_succ {s t r} (h : parsePostfix (n + 1) s = some (t, r)) : Derives 3 s t r := by
  rw [parsePostfix_succ] at h
  obtain ⟨⟨a, r'⟩, hp, hl⟩ := Option.bind_eq_some.1 h
  obtain ⟨c, hw, rfl, rfl⟩ := hn.atom hp
  exact hn.loop (Cst.wf_mono hw (by decide)) hl

theorem Sound.loop_succ {a : Cst} {s t r} (ha : a.wf 3 = true)
    (h : postLoop (n + 1) a.ast s = some (t, r)) : Derives 3 (a.text ++ s) t r := by
  unfold postLoop at h
  split at h <;> try obtain rfl := Nat.succ.inj ‹n + 1 = _›
  · cases h
  · split at h
    · next i r' hi =>
      obtain ⟨c, hw, rfl, rfl⟩ := hn.cast hi
      simpa [Cst.text] using hn.loop (a := .index a c) (by simp [Cst.wf, ha, hw]) h
    · next i r' hi =>
      obtain ⟨c, hw, rfl, rfl⟩ := hn.cast hi
      simpa [Cst.text] using hn.loop (a := .sliceTail a c) (by simp [Cst.wf, ha, hw]) h
    · cases h
  · cases h
    exact ⟨a, ha, rfl, rfl⟩

theorem Sound.atom_succ {s t r} (h : parseAtom (n + 1) s = some (t, r)) : Derives 4 s t r := by
  unfold parseAtom at h
  split at h <;> try obtain rfl := Nat.succ.inj ‹n + 1 = _›
  · cases h
  · split at h
    · next a r' ha =>
      cases h
      obtain ⟨c, hw, rfl, rfl⟩ := hn.cast ha
      exact ⟨.paren c, hw, by simp [Cst.text], rfl⟩
    · cases h
  · cases h
    exact ⟨.dollarE, rfl, rfl, rfl⟩
  · split at h
    · cases h
    · next ds r' hds hr =>
      cases h
      have hs := readDigits_eq hr
      exact ⟨.num ds hs.2, by simpa [Cst.wf] using hds, by simp [Cst.text, hs.1], rfl⟩
  · cases h
    exact ⟨.zero, rfl, rfl, rfl⟩
  · split at h
    · next m s' hm =>
      split at h
      · next a r' ha =>
        cases h
        obtain ⟨c, hw, rfl, rfl⟩ := hn.cast ha
        exact ⟨.addrOf c m, hw, by simp [addrOfHead_eq_some hm, Cst.text], rfl⟩
      · cases h
    · cases h

theorem Sound.succ : Sound (n + 1) :=
  ⟨hn.cast_succ, hn.pre_succ, hn.post_succ, hn.loop_succ, hn.atom_succ⟩

end Step

/-- Every level of the parser is sound at every fuel. -/
theorem sound : ∀ n, Sound n
  | 0 => by constructor <;> intros <;> simp_all [parseCast, parsePrefix, parsePostfix, postLoop,
      parseAtom]
  | n + 1 => (sound n).succ

/-- **The parser is sound.** A text it reads is the text of a well-formed
derivation of the tree it returns. -/
theorem parse_sound {s : String} {t : Rewrite} (h : parse s = some t) :
    ∃ c : Cst, c.wf 0 = true ∧ c.text = s.toList ∧ c.ast = t := by
  unfold parse at h
  split at h
  · next t' h' =>
    cases h
    obtain ⟨c, hw, hs, rfl⟩ := (sound _).cast h'
    exact ⟨c, hw, by simpa using hs.symm, rfl⟩
  · cases h

/-! ### A derivation is determined by its text and its tree -/

/-- The index operators of a tree: each writes one `[`. -/
def indexOps : Rewrite → ℕ
  | .index a i | .sliceTail a i => indexOps a + indexOps i + 1
  | .ref rw _ | .addrOf rw _ | .deref rw | .castUsize rw => indexOps rw
  | _ => 0

theorem count_text (c : Cst) : c.text.count '[' = indexOps c.ast := by
  induction c with
  | num ds hds =>
    have : '[' ∉ ds := fun h => by simpa using (List.all_eq_true.1 hds) _ h
    simp [Cst.text, Cst.ast, indexOps, List.count_eq_zero.2 this]
  | ref c m ih | addrOf c m ih =>
    have h0 : (refPrefix m).count '[' = 0 ∧ (addrOfMacro m).count '[' = 0 := by cases m <;> decide
    simp [Cst.text, Cst.ast, indexOps, List.count_append, h0.1, h0.2, ih]
  | _ => simp [Cst.text, Cst.ast, indexOps, List.count_append, List.count_cons, *] <;> omega

/-- If `x ++ a :: u = y ++ a :: v` and `x` and `y` hold as many `a`s, the
two splits are the same. -/
theorem eq_of_append_cons_eq {a : Char} : ∀ {x y u v : List Char}, x ++ a :: u = y ++ a :: v →
    x.count a = y.count a → x = y ∧ u = v
  | [], [], _, _, h, _ => ⟨rfl, by simpa using h⟩
  | [], _ :: _, _, _, h, hc => by
    obtain ⟨rfl, -⟩ := List.cons.inj h
    simp at hc
  | _ :: _, [], _, _, h, hc => by
    obtain ⟨rfl, -⟩ := List.cons.inj h
    simp at hc
  | b :: x, _ :: y, _, _, h, hc => by
    simp only [List.cons_append, List.cons.injEq] at h
    obtain ⟨rfl, h⟩ := h
    obtain ⟨rfl, rfl⟩ := eq_of_append_cons_eq h (by simpa [List.count_cons] using hc)
    exact ⟨rfl, rfl⟩

/-- Only a parenthesis's text is wrapped in parentheses: every other
derivation begins with `&`, `*`, `$`, `0` or a macro path, or ends with `]`
or `e`. -/
theorem eq_paren_of_text {c c₁ : Cst} (h : c.text = (Cst.paren c₁).text) :
    ∃ c₂, c = .paren c₂ := by
  have h1 := congrArg List.head? h
  have h2 := congrArg (fun l => l.reverse.head?) h
  cases c
  case paren c₂ => exact ⟨c₂, rfl⟩
  all_goals (try cases ‹Mutability›) <;> simp [Cst.text, refPrefix, addrOfMacro] at h1 h2

/-- **Derivations are unambiguous.** Two derivations with the same text and
the same tree are the same derivation. -/
theorem text_ast_inj {c c' : Cst} (ht : c.text = c'.text) (ha : c.ast = c'.ast) : c = c' := by
  induction c generalizing c' with
  | paren c ih =>
    obtain ⟨c', rfl⟩ := eq_paren_of_text ht.symm
    simp only [Cst.text, List.cons.injEq, List.append_cancel_right_eq, true_and] at ht
    rw [ih ht ha]
  | index a i iha ihi | sliceTail a i iha ihi =>
    cases c' <;> simp [Cst.ast] at ha ⊢
    all_goals first
      | exact absurd (eq_paren_of_text ht) (by simp)
      | simp only [Cst.text, List.append_assoc, List.cons_append] at ht
        obtain ⟨h1, h2⟩ := eq_of_append_cons_eq ht (by rw [count_text, count_text, ha.1])
        exact ⟨iha h1 ha.1, ihi (List.append_cancel_right h2) ha.2⟩
  | ref c m ih | addrOf c m ih =>
    cases c' <;> simp [Cst.ast] at ha
    all_goals first
      | exact absurd (eq_paren_of_text ht) (by simp)
      | obtain ⟨ha, rfl⟩ := ha
        simp [Cst.text] at ht
        rw [ih ht ha]
  | deref c ih | cast c ih =>
    cases c' <;> simp [Cst.ast] at ha
    all_goals first
      | exact absurd (eq_paren_of_text ht) (by simp)
      | simp [Cst.text] at ht
        rw [ih ht ha]
  | dollarE | zero | num _ _ =>
    cases c' <;> simp [Cst.ast] at ha ⊢
    all_goals first
      | exact absurd (eq_paren_of_text ht) (by simp)
      | simpa [Cst.text] using ht

/-- **Reading back requires a well-formed derivation.** If the text of a
derivation reads back as the derivation's own tree, the derivation is well
formed: one that puts an operator where the grammar's precedence does not
admit it is rejected, or read as another tree. -/
theorem wf_of_parse {c : Cst} (h : parse ⟨c.text⟩ = some c.ast) : c.wf 0 = true := by
  obtain ⟨c', hw, ht, ha⟩ := parse_sound h
  rwa [← text_ast_inj ht ha]

end ExprGrammar

end C2RustRewrite
