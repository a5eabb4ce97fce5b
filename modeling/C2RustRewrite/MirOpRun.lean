/-
# A whole run of the annotator

`gen_mir_rewrites` runs one visitor over every instruction of a body, in
block order. Each instruction's visit sets the location, checks that the
path stack is empty and then acts as a writer (`MirOpWriter`): it files its
rewrites under its own location and leaves the stack empty. Locations of a
body are pairwise distinct, so every location ends up with exactly what
its own instruction's visit files there, as if each instruction had been
visited alone by a fresh visitor (`perInstruction`).

Key definitions: `visitInstr`, `visitInstrs`, `perInstruction`.
Key theorems: `visitBlocks_eq`, `instrs_nodup`, `visitInstr_of_fresh`,
`visitInstrs_rewrites`, `genMirRewrites_local`, `subLoc_balanced`.
-/
import C2RustRewrite.MirOpWriter

namespace C2RustRewrite
namespace Mir

/-! ### Locations of a body -/

theorem blockInstrs_map_fst (bb : BasicBlockData) (b : ℕ) :
    (bb.instrs b).map Prod.fst =
      (List.range bb.statements.length).map (Location.mk b) ++
        (bb.terminator.map fun _ => Location.mk b bb.statements.length).toList := by
  simp only [BasicBlockData.instrs, List.map_append, List.map_map, Function.comp_def]
  rw [← List.enum_map_fst, List.map_map]
  cases bb.terminator <;> rfl

theorem block_of_mem_blockInstrs {bb : BasicBlockData} {b : ℕ} {loc : Location}
    (h : loc ∈ (bb.instrs b).map Prod.fst) : loc.block = b := by
  rw [blockInstrs_map_fst] at h
  cases ht : bb.terminator <;> simp [ht] at h
  · obtain ⟨_, -, rfl⟩ := h; rfl
  · obtain ⟨_, -, rfl⟩ | rfl := h <;> rfl

theorem blockInstrs_nodup (bb : BasicBlockData) (b : ℕ) :
    ((bb.instrs b).map Prod.fst).Nodup := by
  rw [blockInstrs_map_fst, List.Nodup, List.pairwise_append]
  refine ⟨List.Pairwise.map _ (fun _ _ h e => h (Location.mk.inj e).2) (List.nodup_range _), ?_, ?_⟩
  · cases bb.terminator <;> simp
  · cases bb.terminator <;> simp
    omega

theorem block_le_of_mem_instrsFrom {bbs : List BasicBlockData} {b : ℕ}
    {p : Location × Instr} (h : p ∈ instrsFrom bbs b) : b ≤ p.1.block := by
  induction bbs generalizing b with
  | nil => cases h
  | cons bb bbs ih =>
    rcases List.mem_append.1 h with h | h
    · exact (block_of_mem_blockInstrs (List.mem_map_of_mem _ h)).ge
    · exact Nat.le_of_succ_le (ih h)

/-- No two instructions of a body share a location. -/
theorem instrs_nodup (bbs : List BasicBlockData) (b : ℕ) :
    ((instrsFrom bbs b).map Prod.fst).Nodup := by
  induction bbs generalizing b with
  | nil => exact List.nodup_nil
  | cons bb bbs ih =>
    rw [instrsFrom, List.map_append, List.Nodup, List.pairwise_append]
    refine ⟨blockInstrs_nodup bb b, ih _, fun loc₁ h₁ loc₂ h₂ e => ?_⟩
    obtain ⟨p, hp, rfl⟩ := List.mem_map.1 h₂
    have := block_le_of_mem_instrsFrom hp
    rw [← e, block_of_mem_blockInstrs h₁] at this
    exact Nat.not_succ_le_self _ this

/-- Each instruction of a block is what `stmt_at` finds at its location. -/
theorem stmtAt_of_mem_blockInstrs {bb : BasicBlockData} {b : ℕ} {loc : Location}
    {ins : Instr} (h : (loc, ins) ∈ bb.instrs b) : bb.stmtAt loc.statementIndex = some ins := by
  rcases List.mem_append.1 h with h | h
  · obtain ⟨⟨i, s⟩, hs, he⟩ := List.mem_map.1 h
    cases he
    simp [BasicBlockData.stmtAt, List.mem_enum_iff_getElem?.1 hs]
  · cases ht : bb.terminator <;> simp [ht] at h
    obtain ⟨rfl, rfl⟩ := h
    simp [BasicBlockData.stmtAt, ht]

theorem stmtAt_of_mem_instrsFrom {bbs : List BasicBlockData} {b : ℕ} {loc : Location}
    {ins : Instr} (h : (loc, ins) ∈ instrsFrom bbs b) :
    b ≤ loc.block ∧ ((bbs.get? (loc.block - b)).bind (·.stmtAt loc.statementIndex)) = some ins := by
  induction bbs generalizing b with
  | nil => cases h
  | cons bb bbs ih =>
    rcases List.mem_append.1 h with h | h
    · have hb : loc.block = b := block_of_mem_blockInstrs (List.mem_map_of_mem Prod.fst h)
      simp [hb, stmtAt_of_mem_blockInstrs h]
    · obtain ⟨hle, hat⟩ := ih h
      have : loc.block - b = loc.block - (b + 1) + 1 := by omega
      exact ⟨by omega, by simpa [this] using hat⟩

/-- Each instruction of a body is what `stmt_at` finds at its location. -/
theorem stmtAt_of_mem_instrs {body : Body} {loc : Location} {ins : Instr}
    (h : (loc, ins) ∈ body.instrs) : body.stmtAt loc = some ins := by
  simpa [Body.stmtAt] using (stmtAt_of_mem_instrsFrom h).2

/-! ### The loops of `gen_mir_rewrites` as one walk over the instructions -/

section Run

variable (acx : AnalysisCtxt) (asn : Assignment)

/-- The visit of one instruction at its location. -/
def visitInstr : Instr → Location → Visit
  | .stmt s, loc => visitStatement acx asn s loc
  | .term t, loc => visitTerminator acx asn t loc

/-- The visits of the instructions `L`, in order. -/
def visitInstrs : List (Location × Instr) → Visit
  | [] => pure
  | p :: L => fun v => do
    let v ← visitInstr acx asn p.2 p.1 v
    visitInstrs L v

theorem visitInstrs_append (L₁ L₂ : List (Location × Instr)) (v : ExprRewriteVisitor) :
    visitInstrs acx asn (L₁ ++ L₂) v = visitInstrs acx asn L₁ v >>= visitInstrs acx asn L₂ := by
  induction L₁ generalizing v with
  | nil => rfl
  | cons p L₁ ih => simp [visitInstrs, ih]

theorem visitStatements_eq (b : ℕ) (stmts : List Statement) (i : ℕ) :
    visitStatements acx asn b stmts i =
      visitInstrs acx asn ((stmts.enumFrom i).map fun p => (⟨b, p.1⟩, .stmt p.2)) := by
  induction stmts generalizing i with
  | nil => rfl
  | cons s stmts ih => funext v; simp [visitStatements, visitInstrs, ih, visitInstr]

/-- The nested loops over blocks and statements walk `instrsFrom`. -/
theorem visitBlocks_eq (bbs : List BasicBlockData) (b : ℕ) :
    visitBlocks acx asn bbs b = visitInstrs acx asn (instrsFrom bbs b) := by
  induction bbs generalizing b with
  | nil => rfl
  | cons bb bbs ih =>
    funext v
    simp only [visitBlocks, instrsFrom, BasicBlockData.instrs, visitInstrs_append,
      visitStatements_eq, List.enum, bind_assoc, ih]
    congr 1
    funext w
    cases bb.terminator <;> simp [visitInstrs, visitInstr]

/-- The instruction-level part of a visit, after the location is set and
the stack checked. -/
def visitInstrKind : Instr → Location → Visit
  | .stmt s, loc => visitStatementKind acx asn s loc
  | .term t, _ => visitTerminatorKind acx asn t

theorem visits_visitInstrKind (ins : Instr) (loc : Location) :
    Visits (.instr ins) (visitInstrKind acx asn ins loc) := by
  cases ins
  · exact visits_visitStatementKind acx asn _ loc
  · exact visits_visitTerminatorKind acx asn _

/-- One instruction: with an empty stack, it files its rewrites at its
location; with a non-empty one, the `debug_assert!` fails. -/
theorem visitInstr_eq (ins : Instr) (loc : Location) (v : ExprRewriteVisitor) :
    visitInstr acx asn ins loc v =
      if v.subLoc = [] then { v with loc := loc }.record <$> emitted (visitInstrKind acx asn ins loc)
      else .error .subLocNotEmpty := by
  have hw := (visits_visitInstrKind acx asn ins loc).writes.1 { v with loc := loc }
  cases ins <;>
  · by_cases h : v.subLoc = []
    · simpa [visitInstr, visitStatement, visitTerminator, h] using hw
    · simp [visitInstr, visitStatement, visitTerminator, h]

/-- A visitor with an empty stack and no entry at `loc` ends with what a
fresh visitor files there, and its other entries as they were. -/
theorem visitInstr_of_fresh (ins : Instr) (loc : Location) (v : ExprRewriteVisitor)
    (hv : v.subLoc = []) (hloc : v.rewrites loc = none) :
    visitInstr acx asn ins loc v =
      (fun w => { v with loc := loc, rewrites := Function.update v.rewrites loc (w.rewrites loc) }) <$>
        visitInstr acx asn ins loc .new := by
  rw [visitInstr_eq, visitInstr_eq, if_pos hv, if_pos ExprRewriteVisitor.new_subLoc]
  cases emitted (visitInstrKind acx asn ins loc) with
  | error e => rfl
  | ok rs =>
    show Except.ok _ = Except.ok _
    by_cases hrs : rs = []
    · simp [hrs, ← hloc]
    · simp [ExprRewriteVisitor.record, fileAt, hrs, hv, hloc]

/-! ### Per-instruction locality -/

/-- Each instruction visited on its own, by a fresh visitor, in order: the
map that holds at each location what that visit files there. -/
def perInstruction : List (Location × Instr) → Except Panic RewriteMap
  | [] => pure fun _ => none
  | (loc, ins) :: L => do
    let w ← visitInstr acx asn ins loc .new
    let m ← perInstruction L
    pure (Function.update m loc (w.rewrites loc))

theorem perInstruction_of_not_mem {L : List (Location × Instr)} {m : RewriteMap}
    (h : perInstruction acx asn L = .ok m) {loc : Location} (hloc : loc ∉ L.map Prod.fst) :
    m loc = none := by
  induction L generalizing m with
  | nil => cases h; rfl
  | cons p L ih =>
    obtain ⟨loc', ins⟩ := p
    simp only [List.map_cons, List.mem_cons, not_or] at hloc
    simp only [perInstruction] at h
    cases hw : visitInstr acx asn ins loc' .new <;> cases hm : perInstruction acx asn L <;>
      simp only [hw, hm] at h <;> cases h
    rw [Function.update_noteq hloc.1]
    exact ih hm hloc.2

/-- No instruction visited by a fresh visitor fails the stack check. -/
theorem perInstruction_ne_subLocNotEmpty (L : List (Location × Instr)) :
    perInstruction acx asn L ≠ .error .subLocNotEmpty := by
  induction L with
  | nil => nofun
  | cons p L ih =>
    have hne := (visits_visitInstrKind acx asn p.2 p.1).writes.2
    simp only [perInstruction, visitInstr_eq, if_pos ExprRewriteVisitor.new_subLoc]
    cases he : emitted (visitInstrKind acx asn p.2 p.1) with
    | error e => exact fun (h : Except.error e = _) => hne (by rw [he, Except.error.inj h])
    | ok rs =>
      show perInstruction acx asn L >>= _ ≠ _
      cases hm : perInstruction acx asn L with
      | error e => exact fun h => ih (hm.trans h)
      | ok m => nofun

/-- **The run lemma.** Over instructions at distinct locations, none of which
has an entry yet, a visitor with an empty stack ends with each location's
entry as the instruction there files it alone, and the others untouched. -/
theorem visitInstrs_rewrites (L : List (Location × Instr)) (hL : (L.map Prod.fst).Nodup)
    (v : ExprRewriteVisitor) (hv : v.subLoc = []) (hfresh : ∀ p ∈ L, v.rewrites p.1 = none) :
    (·.rewrites) <$> visitInstrs acx asn L v =
      (fun m loc => if loc ∈ L.map Prod.fst then m loc else v.rewrites loc) <$>
        perInstruction acx asn L := by
  induction L generalizing v with
  | nil => simp [visitInstrs, perInstruction, Functor.map, Except.map, pure, Except.pure]
  | cons p L ih =>
    obtain ⟨loc, ins⟩ := p
    simp only [List.map_cons, List.nodup_cons] at hL
    simp only [visitInstrs, perInstruction,
      visitInstr_of_fresh acx asn ins loc v hv (hfresh _ (List.mem_cons_self _ _))]
    cases visitInstr acx asn ins loc .new with
    | error e => rfl
    | ok w =>
      have hfresh' : ∀ q ∈ L, (Function.update v.rewrites loc (w.rewrites loc)) q.1 = none :=
        fun q hq => by
          have hne : q.1 ≠ loc := fun h => hL.1 (h ▸ List.mem_map_of_mem _ hq)
          simpa [Function.update_noteq hne] using hfresh q (List.mem_cons_of_mem _ hq)
      show (·.rewrites) <$> visitInstrs acx asn L
          { v with loc := loc, rewrites := Function.update v.rewrites loc (w.rewrites loc) } =
        _ <$> (perInstruction acx asn L >>= _)
      rw [ih hL.2 { v with loc := loc, rewrites := Function.update v.rewrites loc (w.rewrites loc) }
        hv hfresh']
      cases perInstruction acx asn L with
      | error e => rfl
      | ok m =>
        show Except.ok _ = Except.ok _
        congr 1
        funext l
        by_cases hl : l = loc
        · subst hl
          simp [hL.1]
        · by_cases hm : l ∈ L.map Prod.fst <;> simp [hl, hm, Function.update_noteq hl]

/-- A whole run, from a fresh visitor, as the instructions visited alone. -/
theorem genMirRewrites_eq (body : Body) :
    genMirRewrites acx asn body =
      (fun m loc => if loc ∈ body.instrs.map Prod.fst then m loc else none) <$>
        perInstruction acx asn body.instrs := by
  rw [genMirRewrites, visitBlocks_eq]
  exact visitInstrs_rewrites acx asn body.instrs (instrs_nodup _ 0) .new rfl fun _ _ => rfl

/-- An entry of the per-instruction map is what its instruction emits, and
never empty. -/
theorem perInstruction_entry {L : List (Location × Instr)} {m : RewriteMap}
    (h : perInstruction acx asn L = .ok m) {loc : Location} {rs : List MirRewrite}
    (hloc : m loc = some rs) :
    ∃ ins, (loc, ins) ∈ L ∧ emitted (visitInstrKind acx asn ins loc) = .ok rs ∧ rs ≠ [] := by
  induction L generalizing m with
  | nil => cases h; cases hloc
  | cons p L ih =>
    obtain ⟨loc', ins⟩ := p
    simp only [perInstruction, visitInstr_eq, if_pos ExprRewriteVisitor.new_subLoc] at h
    cases he : emitted (visitInstrKind acx asn ins loc') with
    | error e => rw [he] at h; cases h
    | ok rs' =>
      rw [he] at h
      cases hm : perInstruction acx asn L with
      | error e => rw [hm] at h; cases h
      | ok m' =>
        rw [hm] at h
        cases h
        by_cases hl : loc = loc'
        · subst hl
          rw [Function.update_same, ExprRewriteVisitor.record_rewrites_self rfl rfl] at hloc
          by_cases hrs : rs' = [] <;> simp [hrs] at hloc
          exact ⟨ins, List.mem_cons_self _ _, hloc ▸ he, hloc ▸ hrs⟩
        · rw [Function.update_noteq hl] at hloc
          obtain ⟨ins', hmem, he'⟩ := ih hm hloc
          exact ⟨ins', List.mem_cons_of_mem _ hmem, he'⟩

/-- **Per-instruction locality.** The map `gen_mir_rewrites` builds holds at
each location what that location's instruction files when visited alone by
a fresh visitor, and nothing elsewhere. -/
theorem genMirRewrites_local (body : Body) :
    genMirRewrites acx asn body = perInstruction acx asn body.instrs := by
  rw [genMirRewrites_eq]
  cases h : perInstruction acx asn body.instrs with
  | error e => rfl
  | ok m =>
    refine congrArg Except.ok (funext fun l => ?_)
    by_cases hl : l ∈ body.instrs.map Prod.fst
    · simp [hl]
    · simp [hl, perInstruction_of_not_mem acx asn h hl]

/-- **Stack balance.** Every method the visitor descends through returns
with the path stack it was entered with, so the `debug_assert!` at the
start of each instruction never fails. -/
theorem subLoc_balanced :
    (∀ rv expect v v', visitRvalue acx asn rv expect v = .ok v' → v'.subLoc = v.subLoc) ∧
    (∀ op expect v v', visitOperand acx asn op expect v = .ok v' → v'.subLoc = v.subLoc) ∧
    (∀ op desc v v', visitOperandDesc acx asn op desc v = .ok v' → v'.subLoc = v.subLoc) ∧
    (∀ pl v v', visitPlace pl v = .ok v' → v'.subLoc = v.subLoc) ∧
    (∀ op lty v v', visitPtrOffset acx asn op lty v = .ok v' → v'.subLoc = v.subLoc) ∧
    (∀ op lty v v', visitSliceAsPtr acx asn op lty v = .ok v' → v'.subLoc = v.subLoc) ∧
    (∀ rw v v', emit rw v = .ok v' → v'.subLoc = v.subLoc) ∧
    ∀ body, genMirRewrites acx asn body ≠ .error .subLocNotEmpty := by
  refine ⟨fun rv e _ _ => (visits_visitRvalue acx asn rv e).subLoc_eq,
    fun op e _ _ => (visits_visitOperand acx asn (.operand op) op e).subLoc_eq,
    fun op d _ _ => (visits_visitOperandDesc acx asn (.operand op) op d).subLoc_eq,
    fun pl _ _ => (visits_visitPlace (.place pl) pl).subLoc_eq,
    fun op l _ _ => (files_visitPtrOffset_of acx asn (P := fun _ => True) op l
      (fun _ _ _ _ => Files.enter (visits_visitOperandDesc acx asn (.operand op) op _) fun _ _ => trivial)
      fun _ => ⟨trivial, trivial⟩).writes.subLoc_eq,
    fun op l _ _ => (visits_visitSliceAsPtr acx asn (.operand op) op l).subLoc_eq,
    fun rw _ _ => (visits_emit (.operand (.constant 0)) rw).subLoc_eq, fun body h => ?_⟩
  rw [genMirRewrites_eq] at h
  cases hm : perInstruction acx asn body.instrs with
  | error e =>
    rw [hm] at h
    exact perInstruction_ne_subLocNotEmpty acx asn body.instrs (hm.trans h)
  | ok m => rw [hm] at h; cases h

end Run

end Mir

end C2RustRewrite
