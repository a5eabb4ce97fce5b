/-
# What the unlowering map holds

Invariants of the map `unlower` returns, over every MIR body and every
HIR walk.

Walks compose (`unlower_append`): the map of two walks in a row keeps the
first walk's entries and fills only the keys it left vacant.

Keys point at instructions of the body (`unlower_keys_at_instrs`): `[]` and
`[Rvalue]` at an `Assign` statement or a `Call` terminator, `[Dest]` at an
`Assign` statement only, and `[Rvalue, CallArg(i)]` at a `Call` terminator
with more than `i` arguments; bookkeeping statements and every other
instruction get no key, and the origin at `[]` carries exactly the span of
the instruction it is recorded at. An origin marked `StoreIntoLocal` sits
under `[]` at an assignment or a call into a bare local
(`unlower_storeIntoLocal`), as the descriptor's doc comment says.

A location's two main entries belong together (`unlower_paired`): `[]` and
`[Rvalue]` are both vacant, or both hold what one expression recorded, the
expression itself and its right-hand side. Every expression records the
two together, and the first expression to record at a location wins both.
`[Dest]` and the call arguments carry no such guarantee: a later assignment
fills `[Dest]` at a location whose `[]` an earlier expression took.

An expression is the main origin of one location at most
(`unlower_root_unique`): all its records sit at its last semantic
location, so two entries under `[]` that name one expression, among
expressions with distinct HIR ids, are one entry.

Key definitions: `KeyAt`, `RecordOf`, `Expr.rootOrigin`, `Expr.rvalueOrigin`.
Key theorems: `mem_unlowerRecords`, `unlower_keys_at_instrs`, `unlower_storeIntoLocal`,
`records_paired`, `unlower_paired`, `recordOf_mem`, `unlower_root_unique`, `unlower_append`.
-/
import C2RustRewrite.Unlower
import Mathlib.Data.List.Nodup

namespace C2RustRewrite
namespace Unlower

open Mir

/-! ### The first record for a key -/

theorem firstWins_append (a b : List (OriginKey × MirOrigin)) (k : OriginKey) :
    firstWins (a ++ b) k = (firstWins a k).or (firstWins b k) := by
  simp [firstWins, List.find?_append, Option.map_or']

theorem mem_of_firstWins {recs : List (OriginKey × MirOrigin)} {k : OriginKey} {o : MirOrigin}
    (h : firstWins recs k = some o) : (k, o) ∈ recs := by
  obtain ⟨r, hr, rfl⟩ := Option.map_eq_some'.1 h
  have hk : r.1 = k := by simpa using List.find?_some hr
  exact hk ▸ List.mem_of_find?_eq_some hr

/-- An entry of the unlowering map was recorded by an expression of the walk. -/
theorem unlower_some {body : Body} {parentDerived : Bool} {hir : List Expr} {k : OriginKey}
    {o : MirOrigin} (h : unlower body parentDerived hir k = some o) :
    ∃ ex ∈ preorderList hir, (k, o) ∈ unlowerRecords body ex := by
  cases parentDerived
  · simp only [unlower, Bool.false_eq_true, if_false, visitExprs_eq, layer, Option.none_or] at h
    exact List.mem_flatMap.1 (mem_of_firstWins h)
  · cases h

/-! ### Walks in a row -/

/-- Visiting two lists of expressions is visiting the second from where the
first left the map. -/
theorem visitExprs_append (body : Body) (m : OriginMap) :
    ∀ hir more : List Expr, visitExprs body m (hir ++ more) = visitExprs body (visitExprs body m hir) more
  | [], _ => rfl
  | ex :: hir, more => visitExprs_append body (visitExpr body m ex) hir more

/-- **Walking more only fills vacant keys.** The map of two walks in a row
holds at each key the first walk's entry, and where the first left the key
vacant, what the second walk records there alone: no later expression
overwrites an entry. -/
theorem unlower_append (body : Body) (parentDerived : Bool) (hir more : List Expr) (k : OriginKey) :
    unlower body parentDerived (hir ++ more) k =
      (unlower body parentDerived hir k).or (unlower body parentDerived more k) := by
  cases parentDerived
  · simp only [unlower, Bool.false_eq_true, if_false]
    rw [visitExprs_append, visitExprs_eq _ _ more, visitExprs_eq _ (fun _ => none) more]
    simp only [layer, Option.none_or]
  · rfl

/-! ### Keys point at instructions -/

/-- The paths `unlower` may record at an instruction: the instruction and
its right-hand side at an assignment or a call, the destination of an
assignment, and under `Rvalue` the arguments a call has. -/
def KeyAt : Instr → List SubLoc → Prop
  | .stmt ⟨.assign _ _, _⟩, p => p = [] ∨ p = [.dest] ∨ p = [.assignRvalue]
  | .term ⟨.call _ args _, _⟩, p =>
    p = [] ∨ p = [.assignRvalue] ∨ ∃ i < args.length, p = [.assignRvalue, .callArg i]
  | _, _ => False

/-- What an expression records under `[]`: itself, as stored into a local
unless it is an assignment. -/
def Expr.rootOrigin : Expr → MirOrigin
  | ex@(.assign ..) => ex.origin .expr
  | ex => ex.origin .storeIntoLocal

/-- What an expression records under `[Rvalue]`: an assignment's
right-hand side, any other expression itself. -/
def Expr.rvalueOrigin : Expr → MirOrigin
  | .assign _ _ _ rhs => rhs.origin .expr
  | ex => ex.origin .expr

section Keys

variable (body : Body)

/-- The semantic locations of an expression hold instructions of its span. -/
theorem stmtAt_of_mem_semanticLocs {ex : Expr} {loc : Location} (h : loc ∈ semanticLocs body ex) :
    ∃ ins, body.stmtAt loc = some ins ∧ ins.span = ex.span := by
  simp only [semanticLocs, lookupExact, List.mem_filter, List.mem_map, beq_iff_eq] at h
  obtain ⟨⟨⟨loc', ins⟩, ⟨hmem, hspan⟩, rfl⟩, -⟩ := h
  exact ⟨ins, stmtAt_of_mem_instrs hmem, hspan⟩

theorem rootOrigin_span (ex : Expr) : ex.rootOrigin.span = ex.span := by
  cases ex <;> rfl

theorem rootOrigin_hirId (ex : Expr) : ex.rootOrigin.hirId = ex.hirId := by
  cases ex <;> rfl

/-- What a record of `ex` is: keyed at the last semantic location of `ex`,
at an instruction there and under a path the instruction admits; under
`[]`, the expression's own origin; and, marked `StoreIntoLocal`, under `[]`
at an instruction whose destination is a bare local. -/
def RecordOf (ex : Expr) (k : OriginKey) (o : MirOrigin) : Prop :=
  (semanticLocs body ex).getLast? = some k.1 ∧
    ∃ ins, body.stmtAt k.1 = some ins ∧ KeyAt ins k.2 ∧ (k.2 = [] → o = ex.rootOrigin) ∧
      (o.desc = .storeIntoLocal → k.2 = [] ∧ ∃ pl, ins.dest = some pl ∧ pl.projection = [])

/-- **What an expression records.** Each record of an expression is one its
shape allows, at its last semantic location. -/
theorem recordOf_mem {ex : Expr} {k : OriginKey} {o : MirOrigin}
    (h : (k, o) ∈ unlowerRecords body ex) : RecordOf body ex k o := by
  cases ex
  case assign =>
    simp only [unlowerRecords, assignRecords] at h
    split at h <;> try simp only [List.not_mem_nil] at h
    rename_i hlocs
    split at h <;> try simp only [List.not_mem_nil] at h
    rename_i hst
    simp only [List.mem_cons, Prod.mk.injEq, List.mem_nil_iff, or_false] at h
    rcases h with ⟨rfl, rfl⟩ | ⟨rfl, rfl⟩ | ⟨rfl, rfl⟩ <;>
      exact ⟨by simp [hlocs], _, hst, by simp [KeyAt], by simp [Expr.rootOrigin], nofun⟩
  case other =>
    simp only [unlowerRecords, otherRecords] at h
    split at h <;> try simp only [List.not_mem_nil] at h
    rename_i hloc
    split at h <;> try simp only [List.not_mem_nil] at h
    rename_i hst
    simp only [List.mem_cons, Prod.mk.injEq, List.mem_nil_iff, or_false] at h
    rcases h with ⟨rfl, rfl⟩ | ⟨rfl, rfl⟩
    · exact ⟨hloc, _, hst, by simp [KeyAt], by simp [Expr.rootOrigin], fun _ => ⟨rfl, _, rfl, rfl⟩⟩
    · exact ⟨hloc, _, hst, by simp [KeyAt], by simp [Expr.rootOrigin], nofun⟩
  all_goals
    simp only [unlowerRecords, callRecords] at h
    split at h <;> try simp only [List.not_mem_nil] at h
    rename_i hloc
    split at h <;> try simp only [List.not_mem_nil] at h
    rename_i hst
    simp only [List.cons_append, List.nil_append, List.mem_cons, Prod.mk.injEq, List.mem_map] at h
    rcases h with ⟨rfl, rfl⟩ | ⟨rfl, rfl⟩ | ⟨⟨i, a⟩, hi, ⟨rfl, rfl⟩⟩
    · exact ⟨hloc, _, hst, by simp [KeyAt], by simp [Expr.rootOrigin], fun _ => ⟨rfl, _, rfl, rfl⟩⟩
    · exact ⟨hloc, _, hst, by simp [KeyAt], by simp, nofun⟩
    · have hi := List.fst_lt_of_mem_enum hi
      exact ⟨hloc, _, hst, .inr (.inr ⟨i, by simp at hi; omega, rfl⟩), by simp, nofun⟩

/-- **Where an expression's records go.** Each record of an expression is
keyed at an instruction of the body, under a path the instruction admits,
and a record under `[]` has the instruction's span. -/
theorem mem_unlowerRecords {ex : Expr} {k : OriginKey} {o : MirOrigin}
    (h : (k, o) ∈ unlowerRecords body ex) :
    ∃ ins, body.stmtAt k.1 = some ins ∧ KeyAt ins k.2 ∧ (k.2 = [] → o.span = ins.span) := by
  obtain ⟨hlast, ins, hins, hkey, hroot, -⟩ := recordOf_mem body h
  obtain ⟨ins', hins', hspan⟩ := stmtAt_of_mem_semanticLocs body (List.mem_of_getLast?_eq_some hlast)
  rw [hins] at hins'
  cases hins'
  exact ⟨ins, hins, hkey, fun h0 => by rw [hroot h0, rootOrigin_span, hspan]⟩

/-- What a record marked `StoreIntoLocal` is: keyed under `[]` at an
assignment or a call whose destination is a bare local. -/
theorem storeIntoLocal_of_mem {ex : Expr} {k : OriginKey} {o : MirOrigin}
    (h : (k, o) ∈ unlowerRecords body ex) (hd : o.desc = .storeIntoLocal) :
    k.2 = [] ∧ ∃ ins pl, body.stmtAt k.1 = some ins ∧ ins.dest = some pl ∧ pl.projection = [] :=
  let ⟨_, ins, hins, _, _, hs⟩ := recordOf_mem body h
  let ⟨hk, pl, hpl, hbare⟩ := hs hd
  ⟨hk, ins, pl, hins, hpl, hbare⟩

end Keys

/-- **Keys point at instructions.** Every key of the unlowering map is at an
instruction of the body: `[]` and `[Rvalue]` at an assignment or a call,
`[Dest]` at an assignment only, `[Rvalue, CallArg(i)]` at a call with more
than `i` arguments; no bookkeeping statement and no other instruction gets
a key, and the origin under `[]` has the span of its instruction. -/
theorem unlower_keys_at_instrs (body : Body) (parentDerived : Bool) (hir : List Expr)
    (loc : Location) (path : List SubLoc) (o : MirOrigin)
    (h : unlower body parentDerived hir (loc, path) = some o) :
    ∃ ins, body.stmtAt loc = some ins ∧ KeyAt ins path ∧ (path = [] → o.span = ins.span) :=
  let ⟨_, _, hr⟩ := unlower_some h
  mem_unlowerRecords body hr

/-- `*_1 = _2; return`, lowered from `*p = x`. -/
def storeBody : Body :=
  ⟨[⟨[⟨.assign ⟨1, [.deref]⟩ (.use (.copy ⟨2, []⟩)), ⟨5, 11⟩⟩], some ⟨.return, ⟨0, 12⟩⟩⟩]⟩

/-- `*p = x`: the assignment, its left-hand side `*p` (whose child is `p`)
and its right-hand side `x`. -/
def storeExpr : Expr := .assign 1 ⟨5, 11⟩ (.other 2 ⟨5, 7⟩ [.other 4 ⟨6, 7⟩ []]) (.other 3 ⟨10, 11⟩ [])

/-- The store's own key sits at the statement, with its span. -/
theorem store_key_at_instr :
    ∃ ins, storeBody.stmtAt ⟨0, 0⟩ = some ins ∧ KeyAt ins [] ∧
      ([] = ([] : List SubLoc) → (⟨1, ⟨5, 11⟩, .expr⟩ : MirOrigin).span = ins.span) :=
  unlower_keys_at_instrs storeBody false [storeExpr] ⟨0, 0⟩ [] _ (by decide)

/-- **What `StoreIntoLocal` marks.** As the doc comment of
`MirOriginDesc::StoreIntoLocal` says, an entry of the unlowering map with
that descriptor is the MIR that stores the expression's result into a
local: it is keyed under `[]`, at an assignment or a call whose destination
is a bare local. -/
theorem unlower_storeIntoLocal (body : Body) (parentDerived : Bool) (hir : List Expr)
    (loc : Location) (path : List SubLoc) (o : MirOrigin)
    (h : unlower body parentDerived hir (loc, path) = some o) (hd : o.desc = .storeIntoLocal) :
    path = [] ∧ ∃ ins pl, body.stmtAt loc = some ins ∧ ins.dest = some pl ∧ pl.projection = [] :=
  let ⟨_, _, hr⟩ := unlower_some h
  storeIntoLocal_of_mem body hr hd

/-- `_1 = _2; return`, lowered from the read `x`. -/
def readBody : Body :=
  ⟨[⟨[⟨.assign ⟨1, []⟩ (.use (.copy ⟨2, []⟩)), ⟨3, 4⟩⟩], some ⟨.return, ⟨0, 12⟩⟩⟩]⟩

/-- The read `x` is stored into the temporary `_1`. -/
theorem read_storeIntoLocal :
    unlower readBody false [.other 5 ⟨3, 4⟩ []] (⟨0, 0⟩, []) = some ⟨5, ⟨3, 4⟩, .storeIntoLocal⟩ ∧
      (([] : List SubLoc) = [] ∧ ∃ ins pl, readBody.stmtAt ⟨0, 0⟩ = some ins ∧ ins.dest = some pl ∧
        pl.projection = []) :=
  ⟨by decide, unlower_storeIntoLocal readBody false [.other 5 ⟨3, 4⟩ []] ⟨0, 0⟩ []
    ⟨5, ⟨3, 4⟩, .storeIntoLocal⟩ (by decide) rfl⟩

/-! ### A location's two main entries belong together -/

section Paired

variable (body : Body)

/-- A call's argument records are all keyed under two-step paths. -/
theorem firstWins_callArgs (l loc : Location) (L : List (ℕ × Expr)) {p : List SubLoc}
    (hp : p.length ≠ 2) :
    firstWins (L.map fun q => ((l, [.assignRvalue, .callArg q.1]), q.2.origin .expr)) (loc, p) =
      none := by
  simp only [firstWins, Option.map_eq_none', List.find?_eq_none, List.mem_map]
  rintro _ ⟨q, -, rfl⟩ h
  simp only [beq_iff_eq, Prod.mk.injEq] at h
  exact hp (h.2 ▸ rfl)

/-- An expression records under `[]` and `[Rvalue]` at a location together,
or under neither. -/
theorem records_paired (ex : Expr) (loc : Location) :
    (firstWins (unlowerRecords body ex) (loc, []) = none ∧
        firstWins (unlowerRecords body ex) (loc, [.assignRvalue]) = none) ∨
      (firstWins (unlowerRecords body ex) (loc, []) = some ex.rootOrigin ∧
        firstWins (unlowerRecords body ex) (loc, [.assignRvalue]) = some ex.rvalueOrigin) := by
  cases ex <;> simp only [unlowerRecords, assignRecords, callRecords, otherRecords] <;>
    (repeat' split) <;> try exact .inl ⟨rfl, rfl⟩
  all_goals
    try simp only [firstWins_append, firstWins_callArgs _ _ _ (p := []) nofun,
      firstWins_callArgs _ _ _ (p := [.assignRvalue]) nofun, Option.or_none]
    simp [firstWins, Expr.rootOrigin, Expr.rvalueOrigin]
    exact (em _).symm

theorem flatMap_paired (loc : Location) : ∀ exs : List Expr,
    (firstWins (exs.flatMap (unlowerRecords body)) (loc, []) = none ∧
        firstWins (exs.flatMap (unlowerRecords body)) (loc, [.assignRvalue]) = none) ∨
      ∃ ex ∈ exs, firstWins (exs.flatMap (unlowerRecords body)) (loc, []) = some ex.rootOrigin ∧
        firstWins (exs.flatMap (unlowerRecords body)) (loc, [.assignRvalue]) = some ex.rvalueOrigin
  | [] => .inl ⟨rfl, rfl⟩
  | ex :: exs => by
    simp only [List.flatMap_cons, firstWins_append]
    rcases records_paired body ex loc with ⟨h1, h2⟩ | ⟨h1, h2⟩
    · rw [h1, h2, Option.none_or, Option.none_or]
      rcases flatMap_paired loc exs with h | ⟨ex', hex', h⟩
      · exact .inl h
      · exact .inr ⟨ex', List.mem_cons_of_mem _ hex', h⟩
    · rw [h1, h2]
      exact .inr ⟨ex, List.mem_cons_self _ _, rfl, rfl⟩

end Paired

/-- **A location's two main entries belong together.** At every location,
the entries under `[]` and `[Rvalue]` are both vacant, or both hold what one
expression of the walk recorded: the expression itself (stored into a
local, unless it is an assignment) and its right-hand side (an
assignment's `rhs`, any other expression itself). -/
theorem unlower_paired (body : Body) (parentDerived : Bool) (hir : List Expr) (loc : Location) :
    (unlower body parentDerived hir (loc, []) = none ∧
        unlower body parentDerived hir (loc, [.assignRvalue]) = none) ∨
      ∃ ex ∈ preorderList hir, unlower body parentDerived hir (loc, []) = some ex.rootOrigin ∧
        unlower body parentDerived hir (loc, [.assignRvalue]) = some ex.rvalueOrigin := by
  cases parentDerived
  · simp only [unlower, Bool.false_eq_true, if_false, visitExprs_eq, layer, Option.none_or]
    exact flatMap_paired body loc (preorderList hir)
  · exact .inl ⟨rfl, rfl⟩

/-! ### An expression is the main origin of one location -/

/-- **An expression is the main origin of one location.** When the
expressions of the walk have distinct HIR ids, two entries under `[]`
naming the same expression are one entry: no HIR expression gets the
rewrites of two MIR locations. -/
theorem unlower_root_unique (body : Body) (parentDerived : Bool) (hir : List Expr)
    (hids : ((preorderList hir).map Expr.hirId).Nodup) (loc₁ loc₂ : Location) (o₁ o₂ : MirOrigin)
    (h₁ : unlower body parentDerived hir (loc₁, []) = some o₁)
    (h₂ : unlower body parentDerived hir (loc₂, []) = some o₂) (he : o₁.hirId = o₂.hirId) :
    loc₁ = loc₂ ∧ o₁ = o₂ := by
  obtain ⟨ex₁, hm₁, hr₁⟩ := unlower_some h₁
  obtain ⟨ex₂, hm₂, hr₂⟩ := unlower_some h₂
  obtain ⟨hl₁, -, -, -, ho₁, -⟩ := recordOf_mem body hr₁
  obtain ⟨hl₂, -, -, -, ho₂, -⟩ := recordOf_mem body hr₂
  have hex : ex₁ = ex₂ := List.inj_on_of_nodup_map hids hm₁ hm₂ (by
    rw [← rootOrigin_hirId, ← rootOrigin_hirId, ← ho₁ rfl, ← ho₂ rfl, he])
  subst hex
  exact ⟨Option.some.inj (hl₁.symm.trans hl₂), (ho₁ rfl).trans (ho₂ rfl).symm⟩

/-- The store's own entry, with the HIR ids of `*p = x` distinct. -/
theorem store_root_unique :
    ((preorderList [storeExpr]).map Expr.hirId).Nodup ∧
      unlower storeBody false [storeExpr] (⟨0, 0⟩, []) = some ⟨1, ⟨5, 11⟩, .expr⟩ ∧
      ((⟨0, 0⟩ : Location) = ⟨0, 0⟩ ∧ (⟨1, ⟨5, 11⟩, .expr⟩ : MirOrigin) = ⟨1, ⟨5, 11⟩, .expr⟩) :=
  ⟨by decide, by decide, unlower_root_unique storeBody false [storeExpr] (by decide) ⟨0, 0⟩ ⟨0, 0⟩
    _ _ (by decide) (by decide) rfl⟩

end Unlower

end C2RustRewrite
