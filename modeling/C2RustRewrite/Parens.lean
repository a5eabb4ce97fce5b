/-
# The printer's parentheses are needed

`Rewrite::pretty` parenthesizes a node, through `parenthesize_if`, when its
precedence is below the context's: a cast under `&` or `*`, and a cast, `&`
or `*` as the array of an index. In the derivation it writes (`toCst`) each
pair it inserts is a `paren` node, and `Cst.unparens` lists the derivations
left when one of those pairs is deleted, the pair `SliceTail` forces around
its index apart.

Each deletion leaves a derivation that is not well formed at the top
(`wf_unparens`): the node whose pair went stands where the grammar's
precedence does not admit it. By `parse_text_iff` its text is rejected or read
as another tree: every pair the printer inserts, but the forced one, is
needed (`pretty_parens_needed`).

Key definitions: `Cst.unparens`.
Key theorems: `Cst.text_unparens`, `wf_unparens`, `pretty_parens_needed`.
-/
import C2RustRewrite.RoundTrip

namespace C2RustRewrite
namespace ExprGrammar

open Rewrite

/-! ### Deleting one pair -/

namespace Cst

/-- The derivations left when one `paren` node is deleted, except the one
at the top of a `SliceTail`'s index, which the printer forces. -/
def unparens : Cst → List Cst
  | paren c => c :: c.unparens.map paren
  | addrOf c m => c.unparens.map (addrOf · m)
  | ref c m => c.unparens.map (ref · m)
  | deref c => c.unparens.map deref
  | index a i => a.unparens.map (index · i) ++ i.unparens.map (index a ·)
  | sliceTail a (paren i) => a.unparens.map (sliceTail · (paren i)) ++
      i.unparens.map (sliceTail a <| paren ·)
  | sliceTail a i => a.unparens.map (sliceTail · i) ++ i.unparens.map (sliceTail a ·)
  | cast c => c.unparens.map cast
  | _ => []

/-- The deletions of pairs inside `c`'s outermost one. -/
def unparensBelow : Cst → List Cst
  | paren c => c.unparens.map paren
  | c => c.unparens

theorem mem_unparens_of_below {c d : Cst} (h : d ∈ c.unparensBelow) : d ∈ c.unparens := by
  cases c <;> first | exact h | exact List.mem_cons_of_mem _ h

theorem unparens_sliceTail (a i : Cst) :
    (sliceTail a i).unparens = a.unparens.map (sliceTail · i) ++ i.unparensBelow.map (sliceTail a ·) := by
  cases i
  case paren i => simp [unparens, unparensBelow]
  all_goals rfl

/-- `x` is `y` with one pair of parentheses more. -/
def OnePairMore (x y : List Char) : Prop := ∃ A B C, x = A ++ '(' :: B ++ ')' :: C ∧ y = A ++ B ++ C

theorem OnePairMore.wrap {x y : List Char} (P S : List Char) (h : OnePairMore x y) :
    OnePairMore (P ++ x ++ S) (P ++ y ++ S) := by
  obtain ⟨A, B, C, rfl, rfl⟩ := h
  exact ⟨P ++ A, B, C ++ S, by simp, by simp⟩

/-- A deletion removes one `(` and one `)` from the text. -/
theorem text_unparens {c d : Cst} (hd : d ∈ c.unparens) : OnePairMore c.text d.text := by
  induction c generalizing d with
  | paren c ih =>
    simp only [unparens, List.mem_cons, List.mem_map] at hd
    rcases hd with rfl | ⟨d', hd', rfl⟩
    · exact ⟨[], d.text, [], by simp [text], by simp⟩
    · simpa [text] using (ih hd').wrap ['('] [')']
  | addrOf c m ih =>
    obtain ⟨d', hd', rfl⟩ := List.mem_map.1 hd
    simpa [text] using (ih hd').wrap (addrOfMacro m ++ ['(']) [')']
  | ref c m ih =>
    obtain ⟨d', hd', rfl⟩ := List.mem_map.1 hd
    simpa [text] using (ih hd').wrap (refPrefix m) []
  | deref c ih =>
    obtain ⟨d', hd', rfl⟩ := List.mem_map.1 hd
    simpa [text] using (ih hd').wrap ['*'] []
  | cast c ih =>
    obtain ⟨d', hd', rfl⟩ := List.mem_map.1 hd
    simpa [text] using (ih hd').wrap [] " as usize".toList
  | index a i iha ihi =>
    rcases List.mem_append.1 hd with hd | hd <;> obtain ⟨d', hd', rfl⟩ := List.mem_map.1 hd
    · simpa [text] using (iha hd').wrap [] ('[' :: i.text ++ [']'])
    · simpa [text] using (ihi hd').wrap (a.text ++ ['[']) [']']
  | sliceTail a i iha ihi =>
    rw [unparens_sliceTail] at hd
    rcases List.mem_append.1 hd with hd | hd <;> obtain ⟨d', hd', rfl⟩ := List.mem_map.1 hd
    · simpa [text] using (iha hd').wrap [] ('[' :: i.text ++ " ..]".toList)
    · simpa [text] using (ihi (mem_unparens_of_below hd')).wrap (a.text ++ ['[']) " ..]".toList
  | _ => cases hd

/-- A deletion keeps the tree. -/
theorem ast_unparens {c d : Cst} (hd : d ∈ c.unparens) : d.ast = c.ast := by
  induction c generalizing d with
  | paren c ih =>
    simp only [unparens, List.mem_cons, List.mem_map] at hd
    rcases hd with rfl | ⟨d', hd', rfl⟩
    · rfl
    · simpa [ast] using ih hd'
  | sliceTail a i iha ihi =>
    rw [unparens_sliceTail] at hd
    rcases List.mem_append.1 hd with hd | hd <;> obtain ⟨d', hd', rfl⟩ := List.mem_map.1 hd
    · simp [ast, iha hd']
    · simp [ast, ihi (mem_unparens_of_below hd')]
  | index a i iha ihi =>
    rcases List.mem_append.1 hd with hd | hd <;> obtain ⟨d', hd', rfl⟩ := List.mem_map.1 hd
    · simp [ast, iha hd']
    · simp [ast, ihi hd']
  | addrOf c m ih | ref c m ih | deref c ih | cast c ih =>
    obtain ⟨d', hd', rfl⟩ := List.mem_map.1 hd
    simp [ast, ih hd']
  | _ => cases hd

end Cst

/-! ### What a deletion leaves is not well formed -/

/-- The deletions in `parenIf cond x`, for a node `x` none of whose
deletions is well formed anywhere: at the precedence `p` it was printed for
if the pair is deleted, and anywhere if a pair below it is. -/
theorem wf_unparens_parenIf {cond : Bool} {x : Cst} {p : ℕ} (hx : ∀ j, x ≠ .paren j)
    (hcond : cond = true → x.wf p = false) (hbelow : ∀ d ∈ x.unparens, ∀ q, d.wf q = false) :
    (∀ d ∈ (parenIf cond x).unparens, d.wf p = false) ∧
      ∀ d ∈ (parenIf cond x).unparensBelow, ∀ q, d.wf q = false := by
  have hparen : ∀ d ∈ x.unparens.map Cst.paren, ∀ q, d.wf q = false :=
    List.forall_mem_map.2 fun d hd _ => by simpa [Cst.wf] using hbelow d hd 0
  cases cond
  · have e : x.unparensBelow = x.unparens := by cases x <;> first | rfl | exact absurd rfl (hx _)
    simp only [parenIf, Bool.false_eq_true, if_false, e]
    exact ⟨fun d hd => hbelow d hd p, hbelow⟩
  · simp only [parenIf, if_true, Cst.unparens, Cst.unparensBelow, List.forall_mem_cons]
    exact ⟨⟨hcond rfl, fun d hd => hparen d hd p⟩, hparen⟩

/-- **No deletion is well formed.** Deleting a pair leaves the node it
enclosed at a precedence that does not admit it. -/
theorem wf_unparens : ∀ t : Rewrite, t.isExpr = true → ∀ p,
    (∀ d ∈ (toCst t p).unparens, d.wf p = false) ∧
      ∀ d ∈ (toCst t p).unparensBelow, ∀ q, d.wf q = false
  | identity, _, _ | sub .., _, _ | litZero, _, _ => by simp [toCst, Cst.unparens, Cst.unparensBelow]
  | addrOf rw m, h, _ => by
    have hd : ∀ d ∈ (toCst rw 0).unparens.map (Cst.addrOf · m), ∀ q, d.wf q = false :=
      List.forall_mem_map.2 fun d hd _ => by simpa [Cst.wf] using (wf_unparens rw h 0).1 d hd
    exact ⟨fun d h' => hd d h' _, hd⟩
  | ref rw _, h, _ => wf_unparens_parenIf (by simp) (by simp [Cst.wf]; omega) <|
      List.forall_mem_map.2 fun d hd _ => by simp [Cst.wf, (wf_unparens rw h 2).1 d hd]
  | deref rw, h, _ => wf_unparens_parenIf (by simp) (by simp [Cst.wf]; omega) <|
      List.forall_mem_map.2 fun d hd _ => by simp [Cst.wf, (wf_unparens rw h 2).1 d hd]
  | castUsize rw, h, _ => wf_unparens_parenIf (by simp) (by simp [Cst.wf]; omega) <|
      List.forall_mem_map.2 fun d hd _ => by simp [Cst.wf, (wf_unparens rw h 1).1 d hd]
  | index a i, h, _ => by
    simp only [isExpr, Bool.and_eq_true] at h
    refine wf_unparens_parenIf (by simp) (by simp [Cst.wf]; omega) ?_
    simp only [Cst.unparens, List.forall_mem_append, List.forall_mem_map]
    exact ⟨fun d hd _ => by simp [Cst.wf, (wf_unparens a h.1 3).1 d hd],
      fun d hd _ => by simp [Cst.wf, (wf_unparens i h.2 0).1 d hd]⟩
  | sliceTail a i, h, _ => by
    simp only [isExpr, Bool.and_eq_true] at h
    refine wf_unparens_parenIf (by simp) (by simp [Cst.wf]; omega) ?_
    simp only [Cst.unparens_sliceTail, List.forall_mem_append, List.forall_mem_map]
    exact ⟨fun d hd _ => by simp [Cst.wf, (wf_unparens a h.1 3).1 d hd],
      fun d hd _ => by simp [Cst.wf, (wf_unparens i h.2 999).2 d hd 0]⟩

/-- **The printer's parentheses are needed.** Deleting from the text of an
expression-family tree one pair of parentheses that `parenthesize_if`
inserted, other than the pair forced around a `SliceTail`'s index, leaves a
text the parser rejects or reads as another tree. -/
theorem pretty_parens_needed (t : Rewrite) (ht : t.isExpr = true) (d : Cst)
    (hd : d ∈ (toCst t 0).unparens) :
    (∃ A B C, t.pretty 0 = A ++ '(' :: B ++ ')' :: C ∧ d.text = A ++ B ++ C) ∧
      parse ⟨d.text⟩ ≠ some t.eraseSpans := by
  refine ⟨text_toCst t ht 0 ▸ Cst.text_unparens hd, fun h => ?_⟩
  have hw := (parse_text_iff d).1 (by rwa [Cst.ast_unparens hd, ast_toCst t ht])
  rw [(wf_unparens t ht 0).1 d hd] at hw
  cases hw

/-- `&($e as usize)` loses its pair as `&$e as usize`. -/
theorem ref_cast_pair_needed :
    (∃ A B C, (ref (castUsize identity) .not).pretty 0 = A ++ '(' :: B ++ ')' :: C ∧
        (Cst.ref (.cast .dollarE) .not).text = A ++ B ++ C) ∧
      parse ⟨(Cst.ref (.cast .dollarE) .not).text⟩ ≠ some (ref (castUsize identity) .not).eraseSpans :=
  pretty_parens_needed (ref (castUsize identity) .not) rfl _ (by decide)

/-- Without its pair, `&($e as usize)` reads as `(&$e) as usize`, and
`($e as usize)[$e]` is not an expression. -/
example : parse "&$e as usize" = some (castUsize (ref identity .not)) ∧
    parse "$e as usize[$e]" = none := ⟨rfl, rfl⟩

/-! ### The forced pairs are not needed -/

namespace Cst

/-- A derivation without its outermost pair. -/
def unparen : Cst → Cst
  | paren c => c
  | c => c

/-- The derivation without the pairs at the top of `SliceTail` indices. -/
def dropForced : Cst → Cst
  | paren c => paren c.dropForced
  | addrOf c m => addrOf c.dropForced m
  | ref c m => ref c.dropForced m
  | deref c => deref c.dropForced
  | index a i => index a.dropForced i.dropForced
  | sliceTail a i => sliceTail a.dropForced i.dropForced.unparen
  | cast c => cast c.dropForced
  | c => c

theorem ast_dropForced (c : Cst) : c.dropForced.ast = c.ast := by
  have hu : ∀ c : Cst, c.unparen.ast = c.ast := by intro c; cases c <;> rfl
  induction c <;> simp_all [dropForced, ast]

/-- The index of a `SliceTail` stands at precedence 0, where every
derivation is admitted: the pair around it adds nothing. -/
theorem wf_dropForced {c : Cst} {p : ℕ} (h : c.wf p = true) : c.dropForced.wf p = true := by
  have hu : ∀ c : Cst, c.wf 0 = true → c.unparen.wf 0 = true := by intro c; cases c <;> simp [unparen, wf]
  induction c generalizing p <;> simp_all [dropForced, wf]

end Cst

/-- **The forced pairs are redundant.** Deleting every pair the printer
forces around the index of a `SliceTail`, the text of an expression-family
tree still reads back as the tree. -/
theorem pretty_forced_parens_redundant (t : Rewrite) (ht : t.isExpr = true) :
    parse ⟨(toCst t 0).dropForced.text⟩ = some t.eraseSpans := by
  rw [← ast_toCst t ht 0, ← Cst.ast_dropForced]
  exact parse_text (Cst.wf_dropForced (wf_toCst t ht 0))

/-- `$e[($e as usize) ..]` reads back without its forced pair. -/
theorem sliceTail_cast_forced_redundant :
    parse ⟨(toCst (sliceTail identity (castUsize identity)) 0).dropForced.text⟩ =
      some (sliceTail identity (castUsize identity)).eraseSpans :=
  pretty_forced_parens_redundant (sliceTail identity (castUsize identity)) rfl

/-- The printer writes `$e[($e as usize) ..]`; without the forced pair the
text is `$e[$e as usize ..]`. -/
example : (sliceTail identity (castUsize identity)).toString = "$e[($e as usize) ..]" ∧
    (toCst (sliceTail identity (castUsize identity)) 0).dropForced.text =
      "$e[$e as usize ..]".toList := by
  decide

end ExprGrammar

end C2RustRewrite
