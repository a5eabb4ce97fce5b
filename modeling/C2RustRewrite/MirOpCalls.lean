/-
# What the two special calls file

`visit_terminator` rewrites calls of two callees. A call of `ptr.offset`
becomes a slice offset: at most the `MutToImm` cast of its argument, under
`[CallArg(0)]`, then one `OffsetSlice` at the call, then, when the result
is a single pointer, the `SliceFirst` upcast, with the same mutability as
the offset (`OffsetFiled`). A call of `as_ptr` gets `RemoveAsPtr` exactly
when its operand and its result resolve to the same ownership and
quantity. For every body the pass gets through, every such call of the
body has exactly that entry (`genMirRewrites_calls`).

`Files` says what each rewrite is; the order and the number of rewrites
need a predicate on the whole list a method writes (`Emits`), which
composes along `++` as `Writes` does.

Key definitions: `Emits`, `AtMostCast`, `OffsetFiled`.
Key theorems: `Emits.bind`, `emits_visitPtrOffset`, `emits_visitSliceAsPtr`,
`perInstruction_at`, `genMirRewrites_calls`.
-/
import C2RustRewrite.MirOpPanics

namespace C2RustRewrite
namespace Mir

/-! ### Writers, as whole lists -/

/-- `f` writes, and the list it writes, when it gets through, satisfies `Q`. -/
def Emits (Q : List MirRewrite → Prop) (f : Visit) : Prop :=
  ∃ w, Writes f w ∧ ∀ rs, w = .ok rs → Q rs

section Emits

variable {Q R : List MirRewrite → Prop} {f g : Visit}

theorem Emits.emitted (h : Emits Q f) {rs : List MirRewrite} (hrs : emitted f = .ok rs) : Q rs :=
  let ⟨_, hw, ha⟩ := h
  ha rs (hw.emitted_eq ▸ hrs)

theorem Emits.mono (h : Emits Q f) (hQR : ∀ rs, Q rs → R rs) : Emits R f :=
  let ⟨w, hw, ha⟩ := h
  ⟨w, hw, fun rs hrs => hQR rs (ha rs hrs)⟩

theorem emits_pure : Emits (· = []) pure := ⟨_, writes_pure, fun _ h => by cases h; rfl⟩

theorem emits_error (p : Panic) (hp : p ≠ .subLocNotEmpty) : Emits Q fun _ => .error p :=
  ⟨_, writes_error p hp, nofun⟩

theorem emits_emit (rw : RewriteKind) : Emits (· = [⟨rw, []⟩]) (emit rw) :=
  ⟨_, writes_emit rw, fun _ h => by cases h; rfl⟩

theorem Emits.enter {sub : SubLoc} (h : Emits Q f) :
    Emits (fun rs => ∃ a, Q a ∧ rs = a.map (MirRewrite.under [sub])) (enter sub f) := by
  obtain ⟨w, hw, ha⟩ := h
  refine ⟨_, hw.enter sub, fun rs hrs => ?_⟩
  cases w with
  | error e => cases hrs
  | ok a => cases hrs; exact ⟨a, ha a rfl, rfl⟩

/-- A sequence writes what its first part writes, then what its second does. -/
theorem Emits.bind (hf : Emits Q f) (hg : Emits R g) :
    Emits (fun rs => ∃ a b, Q a ∧ R b ∧ rs = a ++ b) fun v => f v >>= g := by
  obtain ⟨wf, hwf, haf⟩ := hf
  obtain ⟨wg, hwg, hag⟩ := hg
  refine ⟨_, hwf.bind hwg, fun rs hrs => ?_⟩
  cases wf with
  | error e => cases hrs
  | ok a =>
    cases wg with
    | error e => cases hrs
    | ok b => cases hrs; exact ⟨a, b, haf a rfl, hag b rfl, rfl⟩

theorem Emits.ite {c : Prop} [Decidable c] (hf : c → Emits Q f) (hg : ¬ c → Emits Q g) :
    Emits Q fun v => if c then f v else g v := by
  by_cases h : c
  · simpa [h] using hf h
  · simpa [h] using hg h

/-- A lookup of the pointer tables, then a visit of what it found. -/
theorem Emits.lookup {α : Type} {x : Except Panic α} {f : α → Visit}
    (hx : ∀ e, x = .error e → e = .pointerIdNone) (hf : ∀ a, x = .ok a → Emits Q (f a)) :
    Emits Q fun v => x >>= fun a => f a v := by
  cases x with
  | error e => exact emits_error e (hx e rfl ▸ nofun)
  | ok a => exact hf a rfl

end Emits

/-! ### One lemma per method -/

/-- What a cast writes: nothing, or the `MutToImm` of the value at hand. -/
def AtMostCast (rs : List MirRewrite) : Prop := rs = [] ∨ rs = [⟨.mutToImm, []⟩]

/-- What a call of `ptr.offset` whose result resolves to `d` files: at most
the cast of its argument, then the offset, then, for a single result, the
upcast, both with the mutability of `d`. -/
def OffsetFiled (d : TypeDesc) (rs : List MirRewrite) : Prop :=
  ∃ pre, (pre = [] ∨ pre = [⟨.mutToImm, [.callArg 0]⟩]) ∧
    rs = pre ++ ⟨.offsetSlice (d.own == .mut), []⟩ ::
      if d.qty = .single then [⟨.sliceFirst (d.own == .mut), []⟩] else []

section Methods

variable (acx : AnalysisCtxt) (asn : Assignment)

theorem emits_emitCastDescDesc (src dst : TypeDesc) :
    Emits AtMostCast (emitCastDescDesc acx src dst) :=
  Emits.ite (fun _ => emits_error _ nofun)
    fun _ => Emits.ite (fun _ => emits_pure.mono fun _ => .inl)
      fun _ => Emits.ite (fun _ => (emits_emit _).mono fun _ => .inr)
        fun _ => emits_pure.mono fun _ => .inl

/-- An operand visited to an expected descriptor writes at most its cast. -/
theorem emits_visitOperandDesc (op : Operand) (expect : TypeDesc) :
    Emits AtMostCast (visitOperandDesc acx asn op expect) := by
  cases op
  case constant => exact emits_pure.mono fun _ => .inl
  all_goals
    refine (Emits.bind emits_pure (Emits.ite (fun _ => Emits.lookup (descAt_panic acx asn _)
      fun _ _ => emits_emitCastDescDesc acx _ _) fun _ => emits_pure.mono fun _ => .inl)).mono ?_
    rintro _ ⟨_, b, rfl, hb, rfl⟩
    exact hb

theorem emits_visitPtrOffset (op : Operand) (resultTy : LTy) :
    Emits (OffsetFiled (descOf acx asn resultTy)) (visitPtrOffset acx asn op resultTy) := by
  refine Emits.lookup (descAt_panic acx asn _) fun d hd => ?_
  rw [← eq_descOf_of_descAt acx asn hd]
  have upcast : Emits (· = if d.qty = .single then [⟨.sliceFirst (d.own == .mut), []⟩] else [])
      fun v => if d.qty = .single then emit (.sliceFirst (d.own == .mut)) v else pure v :=
    Emits.ite (fun hc => (emits_emit _).mono fun _ h => by rw [if_pos hc]; exact h)
      fun hc => emits_pure.mono fun _ h => by rw [if_neg hc]; exact h
  cases hq : offsetArgQty d.qty with
  | error e => exact emits_error e ((offsetArgQty_error hq).1 ▸ nofun)
  | ok q =>
    refine (Emits.bind (emits_visitOperandDesc acx asn op _).enter
      (Emits.bind (emits_emit _) upcast)).mono ?_
    rintro _ ⟨_, _, ⟨a, ha, rfl⟩, ⟨_, _, rfl, rfl, rfl⟩, rfl⟩
    refine ⟨_, ?_, rfl⟩
    rcases ha with rfl | rfl
    exacts [.inl rfl, .inr rfl]

/-- `as_ptr` is removed exactly when both sides resolve alike. -/
theorem emits_visitSliceAsPtr (op : Operand) (resultLty : LTy) :
    Emits (· = if (descOf acx asn (acx.typeOfOperand op)).own = (descOf acx asn resultLty).own ∧
        (descOf acx asn (acx.typeOfOperand op)).qty = (descOf acx asn resultLty).qty
      then [⟨.removeAsPtr, []⟩] else []) (visitSliceAsPtr acx asn op resultLty) :=
  Emits.lookup (descAt_panic acx asn _) fun _ hd => Emits.lookup (descAt_panic acx asn _) fun _ hd' => by
    rw [← eq_descOf_of_descAt acx asn hd, ← eq_descOf_of_descAt acx asn hd']
    exact Emits.ite (fun hc => (emits_emit _).mono fun _ h => by rw [if_pos hc]; exact h)
      fun hc => emits_pure.mono fun _ h => by rw [if_neg hc]; exact h

/-- A call with an argument, by its callee. -/
theorem visitInstrKind_call (func op : Operand) (args : List Operand) (destination : Place)
    (span : Span) (loc : Location) :
    visitInstrKind acx asn (.term ⟨.call func (op :: args) destination, span⟩) loc =
      match acx.tyCallee func with
      | .ptrOffset => visitPtrOffset acx asn op (acx.typeOfPlace destination)
      | .sliceAsPtr => visitSliceAsPtr acx asn op (acx.typeOfPlace destination)
      | .other => pure := by
  funext v
  simp only [visitInstrKind, visitTerminatorKind]
  cases acx.tyCallee func <;> rfl

end Methods

/-! ### Over a whole body -/

section Run

variable (acx : AnalysisCtxt) (asn : Assignment)

/-- Over instructions at distinct locations, the entry the per-instruction
map holds at an instruction's location is what that instruction emits alone. -/
theorem perInstruction_at {L : List (Location × Instr)} (hL : (L.map Prod.fst).Nodup)
    {m : RewriteMap} (h : perInstruction acx asn L = .ok m) {loc : Location} {ins : Instr}
    (hmem : (loc, ins) ∈ L) :
    ∃ rs, emitted (visitInstrKind acx asn ins loc) = .ok rs ∧
      m loc = if rs = [] then none else some rs := by
  induction L generalizing m with
  | nil => cases hmem
  | cons p L ih =>
    simp only [List.map_cons, List.nodup_cons] at hL
    obtain ⟨rs, m', he, hm, rfl⟩ := perInstruction_cons_ok acx asn h
    rcases List.mem_cons.1 hmem with rfl | hmem
    · exact ⟨rs, he, Function.update_same _ _ _⟩
    · have hne : loc ≠ p.1 := fun h => hL.1 (h ▸ List.mem_map_of_mem Prod.fst hmem)
      rw [Function.update_noteq hne]
      exact ih hL.2 hm hmem

/-- The entry a run leaves at an instruction of the body is what the
instruction emits alone. -/
theorem genMirRewrites_at {body : Body} {loc : Location} {entry : Option (List MirRewrite)}
    (h : (· loc) <$> genMirRewrites acx asn body = .ok entry) {ins : Instr}
    (hmem : (loc, ins) ∈ body.instrs) :
    ∃ rs, emitted (visitInstrKind acx asn ins loc) = .ok rs ∧
      entry = if rs = [] then none else some rs := by
  rw [genMirRewrites_eq] at h
  cases hm : perInstruction acx asn body.instrs with
  | error e => rw [hm] at h; cases h
  | ok m =>
    rw [hm] at h
    cases h
    simpa [Functor.map, Except.map, List.mem_map_of_mem Prod.fst hmem] using
      perInstruction_at acx asn (instrs_nodup _ 0) hm hmem

/-- **What the special calls file.** In every body the pass gets through,
each call of `ptr.offset` has an entry: at most the cast of its argument,
then one `OffsetSlice`, then a `SliceFirst` of the same mutability exactly
when the result is a single pointer; and each call of `as_ptr` has
`RemoveAsPtr` exactly when its operand and result resolve to the same
ownership and quantity, and no entry otherwise. -/
theorem genMirRewrites_calls (body : Body) (loc : Location) (entry : Option (List MirRewrite))
    (h : (· loc) <$> genMirRewrites acx asn body = .ok entry) (func op : Operand)
    (args : List Operand) (destination : Place) (span : Span)
    (hmem : (loc, .term ⟨.call func (op :: args) destination, span⟩) ∈ body.instrs) :
    (acx.tyCallee func = .ptrOffset →
        ∃ rs, entry = some rs ∧ OffsetFiled (descOf acx asn (acx.typeOfPlace destination)) rs) ∧
      (acx.tyCallee func = .sliceAsPtr →
        entry = if (descOf acx asn (acx.typeOfOperand op)).own =
              (descOf acx asn (acx.typeOfPlace destination)).own ∧
            (descOf acx asn (acx.typeOfOperand op)).qty =
              (descOf acx asn (acx.typeOfPlace destination)).qty
          then some [⟨.removeAsPtr, []⟩] else none) := by
  obtain ⟨rs, he, rfl⟩ := genMirRewrites_at acx asn h hmem
  rw [visitInstrKind_call] at he
  refine ⟨fun hc => ?_, fun hc => ?_⟩
  · rw [hc] at he
    obtain ⟨pre, hpre, rfl⟩ := (emits_visitPtrOffset acx asn op _).emitted he
    exact ⟨_, if_neg (by simp), pre, hpre, rfl⟩
  · rw [hc] at he
    rw [(emits_visitSliceAsPtr acx asn op _).emitted he]
    split_ifs <;> first | rfl | contradiction

end Run

/-- Every type resolves to `*const T`'s single, immutable descriptor, and
every callee is `ptr::offset`. -/
def singleOffsetCtxt : AnalysisCtxt := { uniformCtxt ⟨.imm, .single, .other 0⟩ with
  tyCallee := fun _ => .ptrOffset }

/-- `_0 = offset(move _1, const 1); return`. -/
def singleOffsetBody : Body :=
  ⟨[⟨[], some ⟨.call (.constant 7) [.move ⟨1, []⟩, .constant 1] ⟨0, []⟩, ⟨10, 20⟩⟩⟩]⟩

/-- Offsetting to a single pointer files the offset, then the upcast. -/
theorem singleOffset_filed :
    ((· ⟨0, 0⟩) <$> genMirRewrites singleOffsetCtxt noPerms singleOffsetBody =
        .ok (some [⟨.offsetSlice false, []⟩, ⟨.sliceFirst false, []⟩]) ∧
      (⟨0, 0⟩, .term ⟨.call (.constant 7) [.move ⟨1, []⟩, .constant 1] ⟨0, []⟩, ⟨10, 20⟩⟩) ∈
        singleOffsetBody.instrs) ∧
    (singleOffsetCtxt.tyCallee (.constant 7) = .ptrOffset →
        ∃ rs, some [(⟨.offsetSlice false, []⟩ : MirRewrite), ⟨.sliceFirst false, []⟩] = some rs ∧
          OffsetFiled (descOf singleOffsetCtxt noPerms (singleOffsetCtxt.typeOfPlace ⟨0, []⟩)) rs) :=
  ⟨⟨entry_of_perInstruction (by decide) (by decide), by decide⟩,
    (genMirRewrites_calls singleOffsetCtxt noPerms singleOffsetBody ⟨0, 0⟩ _
      (entry_of_perInstruction (by decide) (by decide)) (.constant 7) (.move ⟨1, []⟩)
      [.constant 1] ⟨0, []⟩ ⟨10, 20⟩ (by decide)).1⟩

end Mir

end C2RustRewrite
