/-
# The visitor is a writer

Below the instruction level every method of `ExprRewriteVisitor` does one
thing to the visitor: it appends, to the list filed at the current
location, the rewrites it `emit`s, each tagged with the path it stood at.
Those rewrites, taken relative to the node the method visits, and the
panic it may stop with, depend on that node and the analysis facts only;
the location and the path stack come back as they went in.

`Writes f w` says this of a method `f` with the relative rewrites `w`;
`emitted f` reads `w` off a visit from a fresh visitor. `Files P f` says
moreover that each rewrite written satisfies `P`, and `Fails E f` that
each panic it may stop with satisfies `E`. `Visits n f` is `Files` of the
property that the path of a rewrite leads from the node `n` the method
visits to one of its sub-nodes, along the edges the doc comments of
`SubLoc` give (`SubNode.child`); `RawToRef` is the one rewrite whose path
is exempt. The combinators of the source (`enter`, `emit`, sequencing,
branching) preserve all three, so one lemma per method proves each, by the
method's own case split.

Key definitions: `fileAt`, `ExprRewriteVisitor.record`, `Writes`, `emitted`,
`Files`, `Fails`, `SubNode.resolve`, `Visits`.
Key theorems: `Writes.enter`, `Writes.bind`, `Visits.enter`,
`visits_visitRvalue`, `visits_visitStatementKind`,
`visits_visitTerminatorKind`, `Visits.writes`.
-/
import C2RustRewrite.MirOp

namespace C2RustRewrite
namespace Mir

/-! ### Filing rewrites -/

/-- The map after `rs` was appended to the list filed at `loc`; no entry is
made for no rewrites, as `emit` makes one only when it pushes. -/
def fileAt (m : RewriteMap) (loc : Location) (rs : List MirRewrite) : RewriteMap :=
  if rs = [] then m else Function.update m loc (some ((m loc).getD [] ++ rs))

@[simp]
theorem fileAt_nil (m : RewriteMap) (loc : Location) : fileAt m loc [] = m := if_pos rfl

theorem fileAt_fileAt (m : RewriteMap) (loc : Location) (a b : List MirRewrite) :
    fileAt (fileAt m loc a) loc b = fileAt m loc (a ++ b) := by
  by_cases ha : a = []
  · simp [ha]
  by_cases hb : b = []
  · simp [hb]
  simp [fileAt, ha, hb]

theorem fileAt_of_ne {m : RewriteMap} {loc loc' : Location} (rs : List MirRewrite)
    (h : loc' ≠ loc) : fileAt m loc rs loc' = m loc' := by
  unfold fileAt
  split <;> simp [h]

/-- What `rs` files at a location that had no entry. -/
theorem fileAt_self_of_none {m : RewriteMap} {loc : Location} (rs : List MirRewrite)
    (h : m loc = none) : fileAt m loc rs loc = if rs = [] then none else some rs := by
  unfold fileAt
  split <;> simp [h]

/-- A rewrite whose path is extended at the front by `path`. -/
def MirRewrite.under (path : List SubLoc) (r : MirRewrite) : MirRewrite :=
  ⟨r.kind, path ++ r.subLoc⟩

@[simp]
theorem MirRewrite.under_nil : MirRewrite.under [] = id := rfl

@[simp]
theorem MirRewrite.under_under (p q : List SubLoc) (r : MirRewrite) :
    (r.under q).under p = r.under (p ++ q) := by
  simp [MirRewrite.under]

/-- The visitor after `rs`, with paths relative to where it stands, were emitted. -/
def ExprRewriteVisitor.record (v : ExprRewriteVisitor) (rs : List MirRewrite) :
    ExprRewriteVisitor :=
  { v with rewrites := fileAt v.rewrites v.loc (rs.map (MirRewrite.under v.subLoc)) }

namespace ExprRewriteVisitor

@[simp]
theorem record_loc (v : ExprRewriteVisitor) (rs : List MirRewrite) : (v.record rs).loc = v.loc :=
  rfl

@[simp]
theorem record_subLoc (v : ExprRewriteVisitor) (rs : List MirRewrite) :
    (v.record rs).subLoc = v.subLoc :=
  rfl

@[simp]
theorem record_nil (v : ExprRewriteVisitor) : v.record [] = v := by
  simp [record]

@[simp]
theorem record_record (v : ExprRewriteVisitor) (a b : List MirRewrite) :
    (v.record a).record b = v.record (a ++ b) := by
  simp [record, fileAt_fileAt]

@[simp]
theorem new_subLoc : ExprRewriteVisitor.new.subLoc = [] := rfl

@[simp]
theorem new_rewrites (loc : Location) : ExprRewriteVisitor.new.rewrites loc = none := rfl

/-- What a visitor with an empty path, moved to a location with no entry,
files there. -/
theorem record_rewrites_self {v : ExprRewriteVisitor} {loc : Location} (hv : v.subLoc = [])
    (h : v.rewrites loc = none) (rs : List MirRewrite) :
    ({ v with loc := loc }.record rs).rewrites loc = if rs = [] then none else some rs := by
  simp [record, hv, fileAt_self_of_none _ h]

end ExprRewriteVisitor

/-! ### Writers

A method writes `w` when its whole effect is `record` of `w`, the same
rewrites whatever state it runs from. -/

/-- `f` appends the relative rewrites `w` under the visitor's location and
path and changes nothing else; it never stops on the stack check, which
only the instruction-level methods make. -/
def Writes (f : Visit) (w : Except Panic (List MirRewrite)) : Prop :=
  (∀ v, f v = v.record <$> w) ∧ w ≠ .error .subLocNotEmpty

/-- What a visit files where it ends up, from a fresh visitor. -/
def emitted (f : Visit) : Except Panic (List MirRewrite) :=
  (fun v => (v.rewrites v.loc).getD []) <$> f .new

theorem Writes.emitted_eq {f : Visit} {w : Except Panic (List MirRewrite)} (h : Writes f w) :
    emitted f = w := by
  unfold emitted
  rw [h.1]
  cases w with
  | error e => rfl
  | ok rs =>
    show Except.ok ((fileAt (fun _ => none) ⟨0, 0⟩ (rs.map (MirRewrite.under [])) ⟨0, 0⟩).getD []) = _
    by_cases hrs : rs = [] <;> simp [fileAt_self_of_none, hrs]

theorem Writes.subLoc_eq {f : Visit} {w : Except Panic (List MirRewrite)} (h : Writes f w)
    {v v' : ExprRewriteVisitor} (hv : f v = .ok v') : v'.subLoc = v.subLoc := by
  rw [h.1] at hv
  cases w <;> cases hv
  rfl

theorem writes_pure : Writes pure (pure []) :=
  ⟨fun v => by simp [Functor.map, Except.map, pure, Except.pure], nofun⟩

theorem writes_error (p : Panic) (hp : p ≠ .subLocNotEmpty) : Writes (fun _ => .error p) (.error p) :=
  ⟨fun _ => rfl, fun h => hp (Except.error.inj h)⟩

theorem writes_emit (rw : RewriteKind) : Writes (emit rw) (pure [⟨rw, []⟩]) :=
  ⟨fun v => by
    simp [emit, ExprRewriteVisitor.record, fileAt, MirRewrite.under, Functor.map, Except.map,
      pure, Except.pure], nofun⟩

theorem Writes.enter {f : Visit} {w : Except Panic (List MirRewrite)} (h : Writes f w)
    (sub : SubLoc) : Writes (enter sub f) ((·.map (MirRewrite.under [sub])) <$> w) := by
  refine ⟨fun v => ?_, ?_⟩
  · simp only [C2RustRewrite.Mir.enter, h.1]
    cases w with
    | error e => rfl
    | ok rs =>
      show Except.ok _ = Except.ok _
      simp [ExprRewriteVisitor.record, Function.comp_def]
  · cases w with
    | error e => exact h.2
    | ok rs => nofun

theorem Writes.bind {f g : Visit} {wf wg : Except Panic (List MirRewrite)} (hf : Writes f wf)
    (hg : Writes g wg) :
    Writes (fun v => f v >>= g) (do let a ← wf; let b ← wg; pure (a ++ b)) := by
  refine ⟨fun v => ?_, ?_⟩
  · show f v >>= g = _
    rw [hf.1]
    cases wf with
    | error e => rfl
    | ok a =>
      show g (v.record a) = _
      rw [hg.1]
      cases wg with
      | error e => rfl
      | ok b => exact congrArg Except.ok (v.record_record a b)
  · cases wf with
    | error e => exact hf.2
    | ok a => cases wg with
      | error e => exact hg.2
      | ok b => nofun

/-! ### What a path addresses

The doc comments of `SubLoc` give one edge per constructor, from an
instruction or an rvalue, operand or place to one of its parts. -/

/-- A node a `SubLoc` path can reach from an instruction. -/
inductive SubNode
  | instr (ins : Instr)
  | rvalue (rv : Rvalue)
  | operand (op : Operand)
  | place (pl : Place)
  deriving DecidableEq, Repr

/-- The destination of an `Assign` statement or a `Call` terminator. -/
def Instr.dest : Instr → Option Place
  | .stmt ⟨.assign pl _, _⟩ => some pl
  | .term ⟨.call _ _ destination, _⟩ => some destination
  | _ => none

/-- The right-hand side of an `Assign` statement. -/
def Instr.rvalue : Instr → Option Rvalue
  | .stmt ⟨.assign _ rv, _⟩ => some rv
  | _ => none

/-- The arguments of a `Call` terminator. -/
def Instr.callArgs : Instr → List Operand
  | .term ⟨.call _ args _, _⟩ => args
  | _ => []

/-- The `Operand` fields of an rvalue, in order. -/
def Rvalue.operands : Rvalue → List Operand
  | .use op | .repeat op _ | .cast _ op _ | .unaryOp _ op | .shallowInitBox op _ => [op]
  | .binaryOp _ a b | .checkedBinaryOp _ a b => [a, b]
  | .aggregate _ ops => ops
  | _ => []

/-- The `Place` fields of an rvalue. -/
def Rvalue.places : Rvalue → List Place
  | .ref _ _ pl | .addressOf _ pl | .len pl | .discriminant pl | .copyForDeref pl => [pl]
  | _ => []

/-- The projections that stop just before a `Deref`, innermost first. -/
def derefPrefixes : List PlaceElem → List (List PlaceElem)
  | [] => []
  | e :: es => (if e = .deref then [[]] else []) ++ (derefPrefixes es).map (e :: ·)

/-- The pointer the `i`-th innermost `Deref` of a place goes through. -/
def Place.pointer (pl : Place) (i : ℕ) : Option Place :=
  ((derefPrefixes pl.projection).get? i).map (⟨pl.local, ·⟩)

/-- One edge of a `SubLoc`, as its doc comment gives it. -/
def SubNode.child : SubNode → SubLoc → Option SubNode
  | .instr ins, .dest => ins.dest.map .place
  | .instr ins, .assignRvalue => ins.rvalue.map .rvalue
  | .instr ins, .callArg i => (ins.callArgs.get? i).map .operand
  | .rvalue rv, .rvalueOperand i => (rv.operands.get? i).map .operand
  | .rvalue rv, .rvaluePlace i => (rv.places.get? i).map .place
  | .operand op, .operandPlace => op.place.map .place
  | .place pl, .placePointer i => (pl.pointer i).map .place
  | _, _ => none

/-- The node a path leads to, step by step, if every step exists. -/
def SubNode.resolve : SubNode → List SubLoc → Option SubNode
  | n, [] => some n
  | n, sub :: path => (n.child sub).bind (·.resolve path)

/-- `RewriteKind::RawToRef`. -/
def RewriteKind.isRawToRef : RewriteKind → Bool
  | .rawToRef _ => true
  | _ => false

/-- `r`'s path leads from `n` to one of its sub-nodes, or `r` is a `RawToRef`. -/
def Addresses (n : SubNode) (r : MirRewrite) : Prop :=
  r.kind.isRawToRef = true ∨ (n.resolve r.subLoc).isSome = true

/-! ### Files

`Files P f`: `f` is a writer, and every rewrite it writes satisfies `P`.
The combinators of the source preserve it, each with its own side
condition: `emit rw` needs `P` of `rw` at the empty path, and `enter sub`
turns what the inner visit files into what `P` must hold of under `sub`. -/

/-- `f` writes some rewrites, each of which satisfies `P`. -/
def Files (P : MirRewrite → Prop) (f : Visit) : Prop :=
  ∃ w, Writes f w ∧ ∀ rs, w = .ok rs → ∀ r ∈ rs, P r

section Files

variable {P Q : MirRewrite → Prop} {f g : Visit}

theorem Files.writes (h : Files P f) : Writes f (emitted f) := by
  obtain ⟨w, hw, -⟩ := h
  rwa [hw.emitted_eq]

theorem Files.emitted (h : Files P f) {rs : List MirRewrite} (hrs : emitted f = .ok rs) :
    ∀ r ∈ rs, P r := by
  obtain ⟨w, hw, ha⟩ := h
  exact ha rs (hw.emitted_eq ▸ hrs)

theorem Files.mono (h : Files P f) (hPQ : ∀ r, P r → Q r) : Files Q f :=
  let ⟨w, hw, ha⟩ := h
  ⟨w, hw, fun rs hrs r hr => hPQ r (ha rs hrs r hr)⟩

theorem files_pure (P : MirRewrite → Prop) : Files P pure :=
  ⟨_, writes_pure, fun _ h => by cases h; nofun⟩

theorem files_error (P : MirRewrite → Prop) (p : Panic) (hp : p ≠ .subLocNotEmpty) :
    Files P fun _ => .error p :=
  ⟨_, writes_error p hp, nofun⟩

theorem files_emit {rw : RewriteKind} (h : P ⟨rw, []⟩) : Files P (emit rw) :=
  ⟨_, writes_emit rw, fun _ hrs r hr => by
    cases hrs
    rwa [List.mem_singleton.1 hr]⟩

/-- Entering `sub` to run `f`, whose rewrites satisfy `P` once put under `sub`. -/
theorem Files.enter {sub : SubLoc} (h : Files Q f) (hQ : ∀ r, Q r → P (r.under [sub])) :
    Files P (enter sub f) := by
  obtain ⟨w, hw, ha⟩ := h
  refine ⟨_, hw.enter sub, fun rs hrs r hr => ?_⟩
  cases w with
  | error e => cases hrs
  | ok rs' =>
    cases hrs
    obtain ⟨r', hr', rfl⟩ := List.mem_map.1 hr
    exact hQ r' (ha rs' rfl r' hr')

theorem Files.bind (hf : Files P f) (hg : Files P g) : Files P fun v => f v >>= g := by
  obtain ⟨wf, hwf, haf⟩ := hf
  obtain ⟨wg, hwg, hag⟩ := hg
  refine ⟨_, hwf.bind hwg, fun rs hrs r hr => ?_⟩
  cases wf with
  | error e => cases hrs
  | ok a =>
    cases wg with
    | error e => cases hrs
    | ok b =>
      cases hrs
      rcases List.mem_append.1 hr with hr | hr
      · exact haf a rfl r hr
      · exact hag b rfl r hr

theorem Files.ite {c : Prop} [Decidable c] (hf : Files P f) (hg : Files P g) :
    Files P fun v => if c then f v else g v := by
  by_cases h : c
  · simpa [h] using hf
  · simpa [h] using hg

/-- A lookup of the pointer tables, then a visit of what it found. -/
theorem Files.lookup {α : Type} {x : Except Panic α} {f : α → Visit}
    (hx : ∀ e, x = .error e → e = .pointerIdNone) (hf : ∀ a, x = .ok a → Files P (f a)) :
    Files P fun v => x >>= fun a => f a v := by
  cases x with
  | error e => exact files_error P e (hx e rfl ▸ nofun)
  | ok a => exact hf a rfl

/-- A visit chosen by a condition. -/
theorem Files.select {c : Prop} [Decidable c] (hf : Files P f) (hg : Files P g) :
    Files P (if c then f else g) := by
  split <;> assumption

end Files

/-! ### Fails

`Fails E f`: `f` is a writer, and every panic it may stop with satisfies
`E`. `enter` and `emit` stop with no new panic; a sequence stops with the
panic of one of its parts. -/

/-- `f` writes, and stops, if at all, with a panic satisfying `E`. -/
def Fails (E : Panic → Prop) (f : Visit) : Prop :=
  ∃ w, Writes f w ∧ ∀ e, w = .error e → E e

section Fails

variable {E F : Panic → Prop} {f g : Visit}

theorem Fails.emitted (h : Fails E f) {e : Panic} (he : emitted f = .error e) : E e := by
  obtain ⟨w, hw, ha⟩ := h
  exact ha e (hw.emitted_eq ▸ he)

theorem Fails.mono (h : Fails E f) (hEF : ∀ e, E e → F e) : Fails F f :=
  let ⟨w, hw, ha⟩ := h
  ⟨w, hw, fun e he => hEF e (ha e he)⟩

theorem fails_pure (E : Panic → Prop) : Fails E pure := ⟨_, writes_pure, nofun⟩

theorem fails_error {p : Panic} (hp : p ≠ .subLocNotEmpty) (h : E p) : Fails E fun _ => .error p :=
  ⟨_, writes_error p hp, fun _ he => Except.error.inj he ▸ h⟩

theorem fails_emit (E : Panic → Prop) (rw : RewriteKind) : Fails E (emit rw) :=
  ⟨_, writes_emit rw, nofun⟩

theorem Fails.enter {sub : SubLoc} (h : Fails E f) : Fails E (enter sub f) := by
  obtain ⟨w, hw, ha⟩ := h
  refine ⟨_, hw.enter sub, fun e he => ?_⟩
  cases w with
  | error e' => exact Except.error.inj he ▸ ha e' rfl
  | ok _ => cases he

theorem Fails.bind (hf : Fails E f) (hg : Fails E g) : Fails E fun v => f v >>= g := by
  obtain ⟨wf, hwf, haf⟩ := hf
  obtain ⟨wg, hwg, hag⟩ := hg
  refine ⟨_, hwf.bind hwg, fun e he => ?_⟩
  cases wf with
  | error e' => exact Except.error.inj he ▸ haf e' rfl
  | ok a =>
    cases wg with
    | error e' => exact Except.error.inj he ▸ hag e' rfl
    | ok b => cases he

/-- A branch, each side knowing the condition it was taken on. -/
theorem Fails.ite {c : Prop} [Decidable c] (hf : c → Fails E f) (hg : ¬ c → Fails E g) :
    Fails E fun v => if c then f v else g v := by
  by_cases h : c
  · simpa [h] using hf h
  · simpa [h] using hg h

/-- A lookup of the pointer tables, whose panic satisfies `E`, then a visit of what it found. -/
theorem Fails.lookup {α : Type} {x : Except Panic α} {f : α → Visit}
    (hx : ∀ e, x = .error e → e = .pointerIdNone ∧ E e) (hf : ∀ a, x = .ok a → Fails E (f a)) :
    Fails E fun v => x >>= fun a => f a v := by
  cases x with
  | error e => exact fails_error ((hx e rfl).1 ▸ nofun) (hx e rfl).2
  | ok a => exact hf a rfl

theorem Fails.select {c : Prop} [Decidable c] (hf : Fails E f) (hg : Fails E g) :
    Fails E (if c then f else g) := by
  split <;> assumption

end Fails

/-! ### Visits

`Visits n f`: `f` is a writer, and the rewrites it writes address `n`; it
is `Files (Addresses n) f`. -/

/-- `f` writes some rewrites, and each of them addresses `n`. -/
def Visits (n : SubNode) (f : Visit) : Prop :=
  ∃ w, Writes f w ∧ ∀ rs, w = .ok rs → ∀ r ∈ rs, Addresses n r

/-- A visit writes what it emits from a fresh visitor. -/
theorem Visits.writes {n : SubNode} {f : Visit} (h : Visits n f) : Writes f (emitted f) :=
  Files.writes h

theorem Visits.addresses {n : SubNode} {f : Visit} (h : Visits n f) {rs : List MirRewrite}
    (hrs : emitted f = .ok rs) : ∀ r ∈ rs, Addresses n r :=
  Files.emitted h hrs

theorem Visits.subLoc_eq {n : SubNode} {f : Visit} (h : Visits n f) {v v' : ExprRewriteVisitor}
    (hv : f v = .ok v') : v'.subLoc = v.subLoc :=
  h.writes.subLoc_eq hv

section Combinators

variable {n : SubNode} {f g : Visit}

theorem visits_pure (n : SubNode) : Visits n pure := files_pure _

theorem visits_error (n : SubNode) (p : Panic) (hp : p ≠ .subLocNotEmpty) :
    Visits n fun _ => .error p :=
  files_error _ p hp

theorem visits_emit (n : SubNode) (rw : RewriteKind) : Visits n (emit rw) :=
  files_emit (P := Addresses n) (.inr rfl)

/-- Entering a `SubLoc` that leads from `n` to `n'`, to visit `n'`. -/
theorem Visits.enter {n' : SubNode} {sub : SubLoc} (hsub : n.child sub = some n')
    (h : Visits n' f) : Visits n (enter sub f) :=
  Files.enter (P := Addresses n) h fun r hr => by
    simpa [Addresses, MirRewrite.under, SubNode.resolve, hsub] using hr

theorem Visits.bind (hf : Visits n f) (hg : Visits n g) : Visits n fun v => f v >>= g :=
  Files.bind hf hg

theorem Visits.ite {c : Prop} [Decidable c] (hf : Visits n f) (hg : Visits n g) :
    Visits n fun v => if c then f v else g v :=
  Files.ite hf hg

theorem Visits.lookup {α : Type} {x : Except Panic α} {f : α → Visit}
    (hx : ∀ e, x = .error e → e = .pointerIdNone) (hf : ∀ a, x = .ok a → Visits n (f a)) :
    Visits n fun v => x >>= fun a => f a v :=
  Files.lookup hx hf

/-- A visit chosen by a condition. -/
theorem Visits.select {c : Prop} [Decidable c] (hf : Visits n f) (hg : Visits n g) :
    Visits n (if c then f else g) :=
  Files.select hf hg

end Combinators

/-! ### Every method below the instruction level visits its node -/

section Methods

variable (acx : AnalysisCtxt) (asn : Assignment) (n : SubNode)

theorem visits_emitCastDescDesc (src dst : TypeDesc) : Visits n (emitCastDescDesc acx src dst) :=
  Visits.ite (visits_error n _ nofun)
    (Visits.ite (visits_pure n) (Visits.ite (visits_emit n _) (visits_pure n)))

theorem visits_emitCastLtyDesc (srcLty : LTy) (dst : TypeDesc) :
    Visits n (emitCastLtyDesc acx asn srcLty dst) :=
  Visits.lookup (descAt_panic acx asn _) fun _ _ => visits_emitCastDescDesc acx n _ _

theorem visits_emitCastLtyLty (srcLty dstLty : LTy) :
    Visits n (emitCastLtyLty acx asn srcLty dstLty) :=
  Visits.ite (visits_pure n) <| Visits.ite (visits_pure n) <|
    Visits.lookup (descAt_panic acx asn _) fun _ _ =>
      Visits.lookup (descAt_panic acx asn _) fun _ _ =>
        visits_emitCastDescDesc acx n _ _

theorem visits_visitPlace (pl : Place) : Visits n (visitPlace pl) := visits_pure n

theorem visits_visitOperand (op : Operand) (expect : Option LTy) :
    Visits n (visitOperand acx asn op expect) := by
  cases op <;> cases expect <;>
    first
    | exact visits_pure n
    | exact Visits.bind (visits_visitPlace n _) (visits_pure n)
    | exact Visits.bind (visits_visitPlace n _)
        (Visits.ite (visits_emitCastLtyLty acx asn n _ _) (visits_pure n))

theorem visits_visitOperandDesc (op : Operand) (expect : TypeDesc) :
    Visits n (visitOperandDesc acx asn op expect) := by
  cases op <;>
    first
    | exact visits_pure n
    | exact Visits.bind (visits_visitPlace n _)
        (Visits.ite (visits_emitCastLtyDesc acx asn n _ _) (visits_pure n))

/-- The loop over an aggregate's operands from the `i`-th on. -/
theorem visits_visitAggregateOps (rv : Rvalue) (ops : List Operand) (i : ℕ)
    (hops : ∀ j, rv.operands.get? (i + j) = ops.get? j) :
    Visits (.rvalue rv) (visitAggregateOps acx asn ops i) := by
  induction ops generalizing i with
  | nil => exact visits_pure _
  | cons op ops ih =>
    refine Visits.bind (Visits.enter ?_ (visits_visitOperand acx asn (.operand op) op none))
      (ih _ fun j => ?_)
    · simpa [SubNode.child] using congrArg (Option.map SubNode.operand) (hops 0)
    · simpa [Nat.add_right_comm] using hops (j + 1)

/-- The one path that does not resolve: `RawToRef` under `RvalueOperand(0)`. -/
theorem visits_enter_rawToRefOf (sub : SubLoc) (mutbl : Mutability) (own : Ownership) :
    Visits n (enter sub (rawToRefOf mutbl own)) := by
  have raw (b : Bool) : Visits n (enter sub (emit (.rawToRef b))) :=
    ⟨_, (writes_emit _).enter sub, fun _ h => by
      cases h; simp [Addresses, RewriteKind.isRawToRef, MirRewrite.under]⟩
  cases own <;> first | exact raw _ | exact ⟨_, writes_pure.enter sub, fun _ h => by cases h; nofun⟩

theorem visits_visitRvalue (rv : Rvalue) (expect : Option LTy) :
    Visits (.rvalue rv) (visitRvalue acx asn rv expect) := by
  have operand (i : ℕ) (op : Operand) (e : Option LTy) (h : rv.operands.get? i = some op) :
      Visits (.rvalue rv) (enter (.rvalueOperand i) (visitOperand acx asn op e)) :=
    Visits.enter (by simp only [SubNode.child, h, Option.map_some'])
      (visits_visitOperand acx asn (.operand op) op e)
  have place (pl : Place) (h : rv.places.get? 0 = some pl) :
      Visits (.rvalue rv) (enter (.rvaluePlace 0) (visitPlace pl)) :=
    Visits.enter (by simp only [SubNode.child, h, Option.map_some']) (visits_visitPlace (.place pl) pl)
  cases rv with
  | use op => exact operand 0 op expect rfl
  | «repeat» op _ => exact operand 0 op none rfl
  | ref _ _ pl => exact place pl rfl
  | threadLocalRef _ => exact visits_pure _
  | addressOf mutbl pl =>
    refine Visits.bind (place pl rfl) ?_
    cases expect
    · exact visits_pure _
    · exact Visits.lookup (descAt_panic acx asn _) fun _ _ =>
        visits_enter_rawToRefOf _ _ _ _
  | len pl => exact place pl rfl
  | cast _ op _ => exact operand 0 op none rfl
  | binaryOp _ a b | checkedBinaryOp _ a b => exact Visits.bind (operand 0 a none rfl) (operand 1 b none rfl)
  | nullaryOp _ _ => exact visits_pure _
  | unaryOp _ op => exact operand 0 op none rfl
  | discriminant pl => exact place pl rfl
  | aggregate _ ops => exact visits_visitAggregateOps acx asn _ ops 0 fun j => by simp [Rvalue.operands]
  | shallowInitBox op _ => exact operand 0 op none rfl
  | copyForDeref pl => exact place pl rfl

/-- `visit_ptr_offset` files what its argument's visit files under
`CallArg(0)`, at the result's descriptor widened by `offsetArgQty`, and its
own two rewrites at the empty path; it panics on a table lookup or an array. -/
theorem files_visitPtrOffset_of {P : MirRewrite → Prop} (op : Operand) (resultTy : LTy)
    (harg : ∀ d q, descAt acx asn resultTy = .ok d → offsetArgQty d.qty = .ok q →
      Files P (enter (.callArg 0) (visitOperandDesc acx asn op ⟨d.own, q, d.pointeeTy⟩)))
    (hemit : ∀ m, P ⟨.offsetSlice m, []⟩ ∧ P ⟨.sliceFirst m, []⟩) :
    Files P (visitPtrOffset acx asn op resultTy) := by
  refine Files.lookup (descAt_panic acx asn _) fun d hd => ?_
  cases hq : offsetArgQty d.qty with
  | error e => exact files_error P e ((offsetArgQty_error hq).1 ▸ nofun)
  | ok q =>
    exact Files.bind (harg d q hd hq)
      (Files.bind (files_emit (hemit _).1) (Files.ite (files_emit (hemit _).2) (files_pure P)))

/-- `visit_ptr_offset`, for a node whose first call argument is `op`. -/
theorem visits_visitPtrOffset (op : Operand) (resultTy : LTy)
    (harg : n.child (.callArg 0) = some (.operand op)) :
    Visits n (visitPtrOffset acx asn op resultTy) :=
  files_visitPtrOffset_of acx asn op resultTy
    (fun _ _ _ _ => Visits.enter harg (visits_visitOperandDesc acx asn _ op _))
    fun _ => ⟨.inr rfl, .inr rfl⟩

theorem visits_visitSliceAsPtr (op : Operand) (resultLty : LTy) :
    Visits n (visitSliceAsPtr acx asn op resultLty) :=
  Visits.lookup (descAt_panic acx asn _) fun _ _ =>
    Visits.lookup (descAt_panic acx asn _) fun _ _ =>
      Visits.ite (visits_emit n _) (visits_pure n)

variable {n}

/-- The cell cases, for a node whose right-hand side is `rv`. -/
theorem visits_visitCellSet (pl : Place) {rv : Rvalue}
    (hrv : n.child .assignRvalue = some (.rvalue rv)) : Visits n (visitCellSet acx asn pl) :=
  Visits.ite (Visits.lookup (descAt_panic acx asn _) fun _ _ =>
    Visits.ite (Visits.enter hrv (visits_emit _ _)) (visits_pure n)) (visits_pure n)

theorem visits_visitCellUse (pl : Place) {rv : Rvalue}
    (hrv : n.child .assignRvalue = some (.rvalue rv)) : Visits n (visitCellUse acx asn pl rv) := by
  cases rv
  case use rvOp =>
    have cell (k : RewriteKind) :=
      Visits.enter hrv (Visits.enter (show SubNode.child (.rvalue (.use rvOp)) (.rvalueOperand 0) =
        some (.operand rvOp) from rfl) (visits_emit _ k))
    refine Visits.lookup (permsAt_panic asn _) fun _ _ =>
      Visits.lookup (flagsAt_panic asn _) fun _ _ =>
        Visits.bind (Visits.select (cell _) (visits_pure n)) ?_
    cases rvOp.place
    · exact visits_pure n
    · exact Visits.ite (Visits.lookup (flagsAt_panic asn _) fun _ _ =>
        Visits.ite (cell _) (visits_pure n)) (visits_pure n)
  all_goals exact visits_pure n

theorem visits_visitAssign (pl : Place) (rv : Rvalue) (loc : Location)
    (hrv : n.child .assignRvalue = some (.rvalue rv)) (hdest : n.child .dest = some (.place pl)) :
    Visits n (visitAssign acx asn pl rv loc) :=
  Visits.ite (visits_pure n) (Visits.bind (visits_visitCellSet acx asn pl hrv)
    (Visits.bind (visits_visitCellUse acx asn pl hrv)
      (Visits.bind (Visits.enter hrv (visits_visitRvalue acx asn _ _))
        (Visits.bind (visits_emitCastLtyLty acx asn n _ _)
          (Visits.enter hdest (visits_visitPlace _ pl))))))

theorem visits_visitStatementKind (stmt : Statement) (loc : Location) :
    Visits (.instr (.stmt stmt)) (visitStatementKind acx asn stmt loc) := by
  obtain ⟨kind, span⟩ := stmt
  unfold visitStatementKind
  cases kind <;>
    first
    | exact visits_visitAssign acx asn _ _ loc rfl rfl
    | exact visits_error _ _ nofun
    | exact visits_pure _

theorem visits_visitTerminatorKind (term : Terminator) :
    Visits (.instr (.term term)) (visitTerminatorKind acx asn term) := by
  obtain ⟨kind, span⟩ := term
  unfold visitTerminatorKind
  cases kind
  case call func args destination =>
    dsimp only
    cases acx.tyCallee func <;> cases args <;>
      first
      | exact visits_error _ _ nofun
      | exact visits_visitPtrOffset acx asn _ _ _ rfl
      | exact visits_visitSliceAsPtr acx asn _ _ _
      | exact visits_pure _
  all_goals first | exact visits_error _ _ nofun | exact visits_pure _

end Methods

end Mir

end C2RustRewrite
