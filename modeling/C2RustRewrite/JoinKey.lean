/-
# The join key of the two maps

The rewrites `gen_mir_rewrites` files and the origins `unlower` records are
joined on `(Location, SubLoc path)`. The two passes build their paths
differently: `mir_op` pushes `SubLoc`s on a stack as it descends, `unlower`
writes literal slices.

Every key `unlower` records has one of four paths: `[]`, `[Dest]`,
`[Rvalue]` or `[Rvalue, CallArg(i)]`. `mir_op` addresses the argument of a
`ptr.offset` call by `[CallArg(0)]`, without the `Rvalue` step, so the
cast it files on that argument finds no origin under its key, while
`unlower` records the argument's origin under another.

Key definitions: `offsetCtxt`, `offsetPerms`, `offsetTerm`, `offsetBody`, `offsetExpr`.
Key theorems: `unlower_key_shapes`, `offset_arg_join_keys_differ`.
-/
import C2RustRewrite.MirOpContract
import C2RustRewrite.UnlowerMap

namespace C2RustRewrite
namespace Unlower

open Mir

/-! ### The keys `unlower` records -/

/-- The four paths an expression's records use. -/
theorem unlowerRecords_key_shape (body : Body) (ex : Expr) {r : OriginKey × MirOrigin}
    (hr : r ∈ unlowerRecords body ex) :
    r.1.2 = [] ∨ r.1.2 = [.dest] ∨ r.1.2 = [.assignRvalue] ∨
      ∃ i, r.1.2 = [.assignRvalue, .callArg i] := by
  cases ex <;> simp only [unlowerRecords, assignRecords, callRecords, otherRecords] at hr <;>
    (repeat' split at hr) <;> simp at hr
  case assign => rcases hr with rfl | rfl | rfl <;> simp
  case call | methodCall => rcases hr with rfl | rfl | ⟨i, e, -, rfl⟩ <;> simp
  case other => rcases hr with rfl | rfl <;> simp

/-- **The keys of the unlowering map.** Every key `unlower` records has the
path `[]`, `[Dest]`, `[Rvalue]` or `[Rvalue, CallArg(i)]`. -/
theorem unlower_key_shapes (body : Body) (parentDerived : Bool) (hir : List Expr)
    (k : OriginKey) (o : MirOrigin) (h : unlower body parentDerived hir k = some o) :
    k.2 = [] ∨ k.2 = [.dest] ∨ k.2 = [.assignRvalue] ∨ ∃ i, k.2 = [.assignRvalue, .callArg i] := by
  obtain ⟨ex, -, hr⟩ := unlower_some h
  exact unlowerRecords_key_shape body ex hr

/-! ### A `ptr.offset` call

`_0 = offset(move _1, const 1)`, lowered from `p.offset(1)`: the argument
`_1` is a `&mut [T]` candidate, the result a `&T`. -/

/-- Analysis facts for the call: `_0` is a `*const T0` labeled `0`, every
other place a `*mut T0` labeled `1`, and the callee is `ptr::offset`. -/
def offsetCtxt : AnalysisCtxt where
  localTys _ := ⟨.rawPtr .mut (.other 0), some 1⟩
  addrOfLocal _ := none
  typeOfPlace pl := if pl.local = 0 then ⟨.rawPtr .not (.other 0), some 0⟩
    else ⟨.rawPtr .mut (.other 0), some 1⟩
  typeOfOperand _ := ⟨.rawPtr .mut (.other 0), some 1⟩
  typeOfRvalue _ _ := ⟨.rawPtr .mut (.other 0), some 1⟩
  shouldSkipStmt _ := false
  tyCallee _ := .ptrOffset
  eraseRegions := id
  permsToDesc _ p _ := if p.bits = 1 then ⟨.mut, .slice, .other 0⟩ else ⟨.imm, .single, .other 0⟩
  localPermsToDesc _ _ _ := ⟨.imm, .single, .other 0⟩

/-- Pointer `1` gets the permission bits `1`, every other pointer none. -/
def offsetPerms : Assignment := ⟨fun p => if p = some 1 then ⟨1⟩ else ⟨0⟩, fun _ => ⟨0⟩⟩

/-- The call terminator, at the span of `p.offset(1)`. -/
def offsetTerm : Terminator :=
  ⟨.call (.constant 7) [.move ⟨1, []⟩, .constant 1] ⟨0, []⟩, ⟨10, 20⟩⟩

/-- One block: the call. -/
def offsetBody : Body := ⟨[⟨[], some offsetTerm⟩]⟩

/-- `p.offset(1)`: the receiver `p` and the literal `1` are its arguments. -/
def offsetExpr : Expr := .methodCall 1 ⟨10, 20⟩ [.other 2 ⟨10, 11⟩ [], .other 3 ⟨18, 19⟩ []]

/-- The cast on the call's argument `move _1` is filed under
`[CallArg(0)]`; `unlower` records that argument's origin, `p`, under
`[Rvalue, CallArg(0)]` and nothing under `[CallArg(0)]`. -/
theorem offset_arg_join_keys_differ :
    (· ⟨0, 0⟩) <$> genMirRewrites offsetCtxt offsetPerms offsetBody =
        .ok (some [⟨.mutToImm, [.callArg 0]⟩, ⟨.offsetSlice false, []⟩, ⟨.sliceFirst false, []⟩]) ∧
      offsetBody.stmtAt ⟨0, 0⟩ = some (.term offsetTerm) ∧
      (SubNode.instr (.term offsetTerm)).resolve [.callArg 0] = some (.operand (.move ⟨1, []⟩)) ∧
      unlower offsetBody false [offsetExpr] (⟨0, 0⟩, [.assignRvalue, .callArg 0]) =
        some ⟨2, ⟨10, 11⟩, .expr⟩ ∧
      unlower offsetBody false [offsetExpr] (⟨0, 0⟩, [.callArg 0]) = none :=
  ⟨entry_of_perInstruction (by decide) (by decide), rfl, rfl, by decide, by decide⟩

/-- `unlower` records the origin `p` of the call's argument, under a key of
the call-argument shape. -/
theorem offset_arg_key_shape :
    unlower offsetBody false [offsetExpr] (⟨0, 0⟩, [.assignRvalue, .callArg 0]) =
        some ⟨2, ⟨10, 11⟩, .expr⟩ ∧
      ([SubLoc.assignRvalue, .callArg 0] = [] ∨ [SubLoc.assignRvalue, .callArg 0] = [.dest] ∨
        [SubLoc.assignRvalue, .callArg 0] = [.assignRvalue] ∨
        ∃ i, [SubLoc.assignRvalue, .callArg 0] = [.assignRvalue, .callArg i]) :=
  (fun ho => ⟨ho, unlower_key_shapes offsetBody false [offsetExpr] _ _ ho⟩) (by decide)

/-! ### The join of the two maps -/

/-- **The join of the two maps.** Whatever the body, the HIR and the
analysis facts, a rewrite `gen_mir_rewrites` files finds an origin in the
unlowering map only at the instruction itself, or as the `CellSet` of an
assignment's right-hand side: a `CellNew`, `CellGet` or `RawToRef`, the
cast of an rvalue's operand and the cast of a `ptr.offset` argument never
find one. -/
theorem join_origin_paths (acx : AnalysisCtxt) (asn : Assignment) (body : Body)
    (parentDerived : Bool) (hir : List Expr) (loc : Location) (rs : List MirRewrite)
    (h : (· loc) <$> genMirRewrites acx asn body = .ok (some rs)) (r : MirRewrite) (hr : r ∈ rs)
    (o : MirOrigin) (ho : unlower body parentDerived hir (loc, r.subLoc) = some o) :
    r.subLoc = [] ∨ r = ⟨.cellSet, [.assignRvalue]⟩ := by
  obtain ⟨ins, -, -, hfiled⟩ := filed_of_entry acx asn h
  obtain ⟨ex, -, hrec⟩ := unlower_some ho
  have hkey := unlowerRecords_key_shape body ex hrec
  rcases (hfiled r hr).paths with h0 | hset | hop | harg
  · exact .inl h0
  · exact .inr hset
  · simp [hop] at hkey
  · simp [harg] at hkey

/-- The `CellSet` of `*p = x`, filed under `[AssignRvalue]`, meets the
origin of `x` recorded under the same key. -/
theorem store_cellSet_joins :
    (· ⟨0, 0⟩) <$> genMirRewrites (uniformCtxt ⟨.cell, .single, .other 0⟩) noPerms storeBody =
        .ok (some [⟨.cellSet, [.assignRvalue]⟩, ⟨.cellNew, [.assignRvalue, .rvalueOperand 0]⟩]) ∧
      unlower storeBody false [storeExpr] (⟨0, 0⟩, [.assignRvalue]) = some ⟨3, ⟨10, 11⟩, .expr⟩ ∧
      ([SubLoc.assignRvalue] = [] ∨
        (⟨.cellSet, [.assignRvalue]⟩ : MirRewrite) = ⟨.cellSet, [.assignRvalue]⟩) :=
  (fun h ho => ⟨h, ho, join_origin_paths _ _ storeBody false [storeExpr] ⟨0, 0⟩ _ h
    ⟨.cellSet, [.assignRvalue]⟩ (List.mem_cons_self _ _) _ ho⟩)
    (entry_of_perInstruction (by decide) (by decide)) (by decide)

end Unlower

end C2RustRewrite
