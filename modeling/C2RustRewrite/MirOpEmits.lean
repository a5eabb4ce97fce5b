/-
# What the annotator files

Consequences of the run lemma for the rewrites `gen_mir_rewrites` files.

Every rewrite filed at a location, `RawToRef` apart, has a path that leads,
along the edges the doc comments of `SubLoc` give, from the instruction at
that location to one of its sub-nodes. `RawToRef` is filed under
`RvalueOperand(0)` of an `AddressOf`, which has a place and no operand, so
its path leads nowhere.

The Cell rewrites are guarded by `Place::is_indirect`, which asks whether a
projection contains a `Deref` anywhere, and by the descriptor of the whole
local: a store through a field of a `Cell` pointer gets the `CellSet` and
the `CellNew` of a store to the whole pointee.

Key definitions: `uniformCtxt`, `addressOfBody`, `cellFieldBody`.
Key theorems: `genMirRewrites_paths_resolve`, `addressOf_rawToRef_unresolved`,
`cellField_store_cellSet`.
-/
import C2RustRewrite.MirOpRun

namespace C2RustRewrite
namespace Mir

/-! ### Paths resolve -/

section Paths

variable (acx : AnalysisCtxt) (asn : Assignment)

/-- An entry of a run's map is what the instruction at its location files
when visited alone, and never empty. -/
theorem genMirRewrites_entry {body : Body} {loc : Location} {rs : List MirRewrite}
    (h : (· loc) <$> genMirRewrites acx asn body = .ok (some rs)) :
    ∃ ins, body.stmtAt loc = some ins ∧ emitted (visitInstrKind acx asn ins loc) = .ok rs ∧
      rs ≠ [] := by
  rw [genMirRewrites_eq] at h
  cases hm : perInstruction acx asn body.instrs with
  | error e => rw [hm] at h; cases h
  | ok m =>
    rw [hm] at h
    have hloc : m loc = some rs := by
      by_cases hl : loc ∈ body.instrs.map Prod.fst <;> simp [hl] at h
      · exact h
    obtain ⟨ins, hmem, he⟩ := perInstruction_entry acx asn hm hloc
    exact ⟨ins, stmtAt_of_mem_instrs hmem, he⟩

/-- **Paths resolve.** Each rewrite filed at a location, other than a
`RawToRef`, has a path that leads from the instruction there to one of its
sub-nodes. -/
theorem genMirRewrites_paths_resolve (body : Body) (loc : Location) (rs : List MirRewrite)
    (h : (· loc) <$> genMirRewrites acx asn body = .ok (some rs)) :
    ∃ ins, body.stmtAt loc = some ins ∧
      ∀ r ∈ rs, r.kind.isRawToRef = false → ((SubNode.instr ins).resolve r.subLoc).isSome := by
  obtain ⟨ins, hins, he, -⟩ := genMirRewrites_entry acx asn h
  refine ⟨ins, hins, fun r hr hk => ?_⟩
  simpa [Addresses, hk] using (visits_visitInstrKind acx asn ins loc).addresses he r hr

end Paths

/-- An entry of a run's map, from the instructions visited alone: `decide`
evaluates this on a concrete body, where replaying the shared visitor's
state through every step is too costly. -/
theorem entry_of_perInstruction {acx : AnalysisCtxt} {asn : Assignment} {body : Body}
    {loc : Location} {a : Option (List MirRewrite)} (hloc : loc ∈ body.instrs.map Prod.fst)
    (h : (perInstruction acx asn body.instrs).toOption.map (· loc) = some a) :
    (· loc) <$> genMirRewrites acx asn body = .ok a := by
  rw [genMirRewrites_eq]
  cases hm : perInstruction acx asn body.instrs <;> rw [hm] at h <;> cases h
  simp [Functor.map, Except.map, hloc]

/-! ### Two statements

A context in which every local, place, operand and rvalue is a labeled raw
pointer, and every pointer's permissions resolve to one descriptor. -/

/-- Analysis facts under which every type is the raw pointer `*const T0`
with label `0`, and every descriptor is `desc`. -/
def uniformCtxt (desc : TypeDesc) : AnalysisCtxt where
  localTys _ := ⟨.rawPtr .not (.other 0), some 0⟩
  addrOfLocal _ := some 0
  typeOfPlace _ := ⟨.rawPtr .not (.other 0), some 0⟩
  typeOfOperand _ := ⟨.rawPtr .not (.other 0), some 0⟩
  typeOfRvalue _ _ := ⟨.rawPtr .not (.other 0), some 0⟩
  shouldSkipStmt _ := false
  tyCallee _ := .other
  eraseRegions := id
  permsToDesc _ _ _ := desc
  localPermsToDesc _ _ _ := desc

/-- No permissions and no flags. -/
def noPerms : Assignment := ⟨fun _ => ⟨0⟩, fun _ => ⟨0⟩⟩

/-- `_2 = &raw const _1; return`. -/
def addressOfBody : Body :=
  ⟨[⟨[⟨.assign ⟨2, []⟩ (.addressOf .not ⟨1, []⟩), Span.dummy⟩], some ⟨.return, Span.dummy⟩⟩]⟩

/-- `RawToRef` is filed under `[AssignRvalue, RvalueOperand(0)]`, and an
`AddressOf` has no operand: the path leads nowhere. -/
theorem addressOf_rawToRef_unresolved :
    (· ⟨0, 0⟩) <$> genMirRewrites (uniformCtxt ⟨.imm, .single, .other 0⟩) noPerms addressOfBody =
        .ok (some [⟨.rawToRef false, [.assignRvalue, .rvalueOperand 0]⟩]) ∧
      addressOfBody.stmtAt ⟨0, 0⟩ = some (.stmt ⟨.assign ⟨2, []⟩ (.addressOf .not ⟨1, []⟩), Span.dummy⟩) ∧
      (SubNode.instr (.stmt ⟨.assign ⟨2, []⟩ (.addressOf .not ⟨1, []⟩), Span.dummy⟩)).resolve
        [.assignRvalue, .rvalueOperand 0] = none :=
  ⟨entry_of_perInstruction (by decide) (by decide), rfl, rfl⟩

/-- `(*_1).0 = _2; return`: a store to a field of the pointee of `_1`. -/
def cellFieldBody : Body :=
  ⟨[⟨[⟨.assign ⟨1, [.deref, .field 0]⟩ (.use (.copy ⟨2, []⟩)), Span.dummy⟩],
    some ⟨.return, Span.dummy⟩⟩]⟩

/-- With `_1` a `Cell` pointer, the field store `(*_1).0 = _2` gets a
`CellSet`, which replaces the whole pointee, and a `CellNew`, which wraps
the stored value. -/
theorem cellField_store_cellSet :
    (· ⟨0, 0⟩) <$> genMirRewrites (uniformCtxt ⟨.cell, .single, .other 0⟩) noPerms cellFieldBody =
      .ok (some [⟨.cellSet, [.assignRvalue]⟩, ⟨.cellNew, [.assignRvalue, .rvalueOperand 0]⟩]) :=
  entry_of_perInstruction (by decide) (by decide)

/-- The field store's rewrites address real sub-nodes of the statement. -/
theorem cellField_paths_resolve :
    ∃ ins, cellFieldBody.stmtAt ⟨0, 0⟩ = some ins ∧
      ∀ r ∈ [(⟨.cellSet, [.assignRvalue]⟩ : MirRewrite), ⟨.cellNew, [.assignRvalue, .rvalueOperand 0]⟩],
        r.kind.isRawToRef = false → ((SubNode.instr ins).resolve r.subLoc).isSome :=
  genMirRewrites_paths_resolve (uniformCtxt ⟨.cell, .single, .other 0⟩) noPerms cellFieldBody ⟨0, 0⟩ _
    (entry_of_perInstruction (by decide) (by decide))

end Mir

end C2RustRewrite
