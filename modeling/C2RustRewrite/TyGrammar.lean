/-
# The type fragment of Rust's grammar

What the text of the type builders is read back with: Rust's type grammar
restricted to the types `Rewrite` builds, with `,` and an optional space
between a constructor's arguments, and a trailing `,` allowed.

    ty   ::= "*const " ty | "*mut " ty | "&mut " ty | "&" ty | "[" ty "]"
           | name "<" args | name
    args ::= ">" | ty ">" | ty "," " "? args
    name ::= segment ("::" segment)*
    segment ::= an identifier, [A-Za-z_][A-Za-z0-9_]* but not "_", that is
                no keyword other than crate, self, Self and super

As a lexer does, the parser reads the longest run of path characters and
then checks that it is a name, so `mut` or `u8;4` is never read as one.
The printer writes a constructor's arguments with nothing between them
(`tyCtor_pretty_collision`), so the text of a type reads back as the type
exactly when every constructor in it has at most one argument and every
name is a name (`simpleTy`): parsing the text of such a type gives the
type back (`parseType_toString`), and two such types never print alike.

Key definitions: `pathChar`, `isSegment`, `isName`, `readName`, `parseTy`,
`parseArgs`, `parseType`, `simpleTy`.
Key theorems: `readName_append`, `stripTok_mut_name`, `parseTy_pretty`,
`parseType_toString`.
-/
import C2RustRewrite.Concrete

namespace C2RustRewrite
namespace TyGrammar

open Rewrite ExprGrammar

/-! ### The grammar -/

/-- A character that may continue an identifier: an ASCII letter, a digit or `_`. -/
def identChar (c : Char) : Bool := c.isAlphanum || c == '_'

/-- A character of a path: an identifier's, or a `:` of its separators. -/
def pathChar (c : Char) : Bool := identChar c || c == ':'

/-- Rust's strict and reserved keywords, but for `crate`, `self`, `Self`
and `super`, which a path segment may be. -/
def reservedWords : List String :=
  ["as", "break", "const", "continue", "else", "enum", "extern", "false", "fn", "for", "if",
    "impl", "in", "let", "loop", "match", "mod", "move", "mut", "pub", "ref", "return", "static",
    "struct", "trait", "true", "type", "unsafe", "use", "where", "while", "async", "await",
    "dyn", "abstract", "become", "box", "do", "final", "macro", "override", "priv", "typeof",
    "unsized", "virtual", "yield", "try"]

/-- A path segment: an identifier (a letter or `_`, then letters, digits
and `_`, but not `_` alone) that is no reserved word. -/
def isSegment : List Char → Bool
  | [] => false
  | c :: t => (c.isAlpha || c == '_') && t.all identChar && (c :: t) != ['_'] &&
      !reservedWords.contains ⟨c :: t⟩

/-- The segments of a run of path characters, split at each `::`. -/
def pathSegments : List Char → List (List Char)
  | ':' :: ':' :: s => [] :: pathSegments s
  | c :: s =>
    match pathSegments s with
    | seg :: segs => (c :: seg) :: segs
    | [] => [[c]]
  | [] => [[]]

/-- A name: a run of path characters whose segments are path segments, as
`Vec`, `i32` or `std::cell::Cell`. -/
def isName (s : List Char) : Bool := s.all pathChar && (pathSegments s).all isSegment

/-- The run of path characters at the front of `s`, and the text after it. -/
def readName : List Char → List Char × List Char
  | c :: s => if pathChar c then (c :: (readName s).1, (readName s).2) else ([], c :: s)
  | [] => ([], [])

/-- An optional space. -/
def skipSpace : List Char → List Char
  | ' ' :: s => s
  | s => s

mutual
/-- A type, and the text after it; `fuel` bounds the depth of the descent. -/
def parseTy : ℕ → List Char → Option (Rewrite × List Char)
  | 0, _ => none
  | n + 1, '*' :: s =>
    match stripTok "const ".toList s with
    | some s' => (parseTy n s').map fun p => (tyPtr p.1 .not, p.2)
    | none =>
      match stripTok "mut ".toList s with
      | some s' => (parseTy n s').map fun p => (tyPtr p.1 .mut, p.2)
      | none => none
  | n + 1, '&' :: s =>
    match stripTok "mut ".toList s with
    | some s' => (parseTy n s').map fun p => (tyRef p.1 .mut, p.2)
    | none => (parseTy n s).map fun p => (tyRef p.1 .not, p.2)
  | n + 1, '[' :: s =>
    match parseTy n s with
    | some (t, ']' :: r) => some (tySlice t, r)
    | _ => none
  | n + 1, s =>
    match readName s with
    | (name, '<' :: r) =>
      if isName name then (parseArgs n r).map fun p => (tyCtor ⟨name⟩ p.1, p.2) else none
    | (name, r) => if isName name then some (printTy ⟨name⟩, r) else none

/-- A constructor's arguments, through its closing `>`. -/
def parseArgs : ℕ → List Char → Option (List Rewrite × List Char)
  | 0, _ => none
  | _ + 1, '>' :: r => some ([], r)
  | n + 1, s =>
    match parseTy n s with
    | some (t, '>' :: r) => some ([t], r)
    | some (t, ',' :: r) => (parseArgs n (skipSpace r)).map fun p => (t :: p.1, p.2)
    | _ => none
end

/-- Read a whole text as one type. -/
def parseType (s : String) : Option Rewrite :=
  match parseTy (s.length + 1) s.toList with
  | some (t, []) => some t
  | _ => none

mutual
/-- The types whose text reads back: their names are names, and each
constructor has at most one argument. -/
def simpleTy : Rewrite → Bool
  | printTy s => isName s.toList
  | tyPtr rw _ | tyRef rw _ | tySlice rw => simpleTy rw
  | tyCtor name rws => isName name.toList && rws.length ≤ 1 && simpleArgs rws
  | _ => false

/-- Every type of a list is simple. -/
def simpleArgs : List Rewrite → Bool
  | [] => true
  | rw :: rws => simpleTy rw && simpleArgs rws
end

/-- `mut` is no name and `u8;4` no path, so neither `&mut` nor `[u8;4]` is
the text of a simple type. -/
example : simpleTy (tyRef (printTy "mut") .not) = false ∧
    simpleTy (tySlice (printTy "u8;4")) = false := by decide

/-! ### Names -/

theorem readName_append : ∀ (s r : List Char), s.all pathChar = true →
    (∀ c, r.head? = some c → pathChar c = false) → readName (s ++ r) = (s, r)
  | [], [], _, _ => rfl
  | [], c :: r, _, hr => by simp [readName, hr c rfl]
  | c :: s, r, hs, hr => by
    simp only [List.all_cons, Bool.and_eq_true] at hs
    simp [readName, hs.1, readName_append s r hs.2 hr]

theorem isName_cons : ∀ {s : List Char}, isName s = true →
    ∃ c s', s = c :: s' ∧ pathChar c = true ∧ s.all pathChar = true
  | [], h => absurd h (by decide)
  | c :: s', h => by
    have h' : (c :: s').all pathChar = true := (Bool.and_eq_true_iff.1 h).1
    exact ⟨c, s', rfl, List.all_eq_true.1 h' c (List.mem_cons_self _ _), h'⟩

/-- A run of path characters does not begin `mut `, whatever follows it but
a path character or a space. -/
theorem stripTok_mut_name {s r : List Char} (hs : s.all pathChar = true)
    (hr : ∀ c, r.head? = some c → pathChar c = false ∧ c ≠ ' ') :
    stripTok "mut ".toList (s ++ r) = none := by
  have hspace : ∀ x, s = "mut ".toList ++ x → False := fun x hx => by
    have := List.all_eq_true.1 hs ' ' (by simp [hx])
    exact absurd this (by decide)
  cases h : stripTok "mut ".toList (s ++ r) with
  | none => rfl
  | some y =>
    rcases List.append_eq_append_iff.1 (stripTok_eq_some h) with ⟨a, hs', hr'⟩ | ⟨c', hs', -⟩
    · cases a with
      | nil => exact (hspace [] (by simpa using hs'.symm)).elim
      | cons c a =>
        have hmem : c ∈ "mut ".toList := hs' ▸ List.mem_append_right s (List.mem_cons_self c a)
        obtain ⟨hn, hsp⟩ := hr c (by simp [hr'])
        simp only [String.toList, List.mem_cons, List.mem_nil_iff, or_false] at hmem
        rcases hmem with rfl | rfl | rfl | rfl <;> first | exact absurd hn (by decide) | exact absurd rfl hsp
    · exact (hspace c' hs').elim

/-! ### One step of the parser -/

section Steps

variable (n : ℕ)

theorem parseTy_ptr (m : Mutability) (s : List Char) :
    parseTy (n + 1) (ptrPrefix m ++ s) = (parseTy n s).map fun p => (tyPtr p.1 m, p.2) := by
  cases m <;> simp [ptrPrefix, parseTy, stripTok]

theorem parseTy_refMut (s : List Char) :
    parseTy (n + 1) (refPrefix .mut ++ s) = (parseTy n s).map fun p => (tyRef p.1 .mut, p.2) := by
  simp [refPrefix, parseTy, stripTok]

theorem parseTy_refNot {s : List Char} (h : stripTok "mut ".toList s = none) :
    parseTy (n + 1) (refPrefix .not ++ s) = (parseTy n s).map fun p => (tyRef p.1 .not, p.2) := by
  show parseTy (n + 1) ('&' :: s) = _
  simp only [parseTy, h]

theorem parseTy_slice (s : List Char) :
    parseTy (n + 1) ('[' :: s) =
      match parseTy n s with
      | some (t, ']' :: r) => some (tySlice t, r)
      | _ => none := by
  simp only [parseTy]

theorem parseTy_name {c : Char} (s : List Char) (hc : pathChar c = true) :
    parseTy (n + 1) (c :: s) =
      match readName (c :: s) with
      | (name, '<' :: r) =>
        if isName name then (parseArgs n r).map fun p => (tyCtor ⟨name⟩ p.1, p.2) else none
      | (name, r) => if isName name then some (printTy ⟨name⟩, r) else none := by
  have h1 : c ≠ '*' := by rintro rfl; exact absurd hc (by decide)
  have h2 : c ≠ '&' := by rintro rfl; exact absurd hc (by decide)
  have h3 : c ≠ '[' := by rintro rfl; exact absurd hc (by decide)
  simp [parseTy, h1, h2, h3]

theorem parseArgs_close (r : List Char) : parseArgs (n + 1) ('>' :: r) = some ([], r) := by
  simp [parseArgs]

theorem parseArgs_ty {c : Char} (s : List Char) (hc : c ≠ '>') :
    parseArgs (n + 1) (c :: s) =
      match parseTy n (c :: s) with
      | some (t, '>' :: r) => some ([t], r)
      | some (t, ',' :: r) => (parseArgs n (skipSpace r)).map fun p => (t :: p.1, p.2)
      | _ => none := by
  simp [parseArgs, hc]

/-- A name, followed by neither a path character nor `<`. -/
theorem parseTy_nameText {name r : List Char} (hname : isName name = true)
    (hr : ∀ c, r.head? = some c → pathChar c = false ∧ c ≠ '<') :
    parseTy (n + 1) (name ++ r) = some (printTy ⟨name⟩, r) := by
  obtain ⟨c, s', rfl, hc, hall⟩ := isName_cons hname
  rw [List.cons_append, parseTy_name n _ hc, ← List.cons_append,
    readName_append _ _ hall fun d hd => (hr d hd).1]
  cases r with
  | nil => exact if_pos hname
  | cons d r =>
    have hd : d ≠ '<' := (hr d rfl).2
    simp [hd, hname]

/-- A name, then `<`: a constructor. -/
theorem parseTy_ctorText {name : List Char} (hname : isName name = true) (s : List Char) :
    parseTy (n + 1) (name ++ '<' :: s) = (parseArgs n s).map fun p => (tyCtor ⟨name⟩ p.1, p.2) := by
  obtain ⟨c, s', rfl, hc, hall⟩ := isName_cons hname
  rw [List.cons_append, parseTy_name n _ hc, ← List.cons_append,
    readName_append _ _ hall fun d hd => by cases hd; decide]
  exact if_pos hname

end Steps

/-! ### The text of a simple type reads back -/

/-- What may follow a type in the text of a simple type: nothing, or the
`]` of a slice, or the `>` of a constructor. -/
def Follows (r : List Char) : Prop := ∀ c, r.head? = some c → c = ']' ∨ c = '>'

theorem follows_cons {c : Char} {r : List Char} (h : c = ']' ∨ c = '>') : Follows (c :: r) :=
  fun _ hc => Option.some.inj hc ▸ h

theorem follows_stop {r : List Char} (h : Follows r) :
    ∀ c, r.head? = some c → pathChar c = false ∧ c ≠ ' ' ∧ c ≠ '<' := fun c hc => by
  rcases h c hc with rfl | rfl <;> decide

/-- The text of a simple type starts with `*`, `&`, `[` or a path character. -/
theorem pretty_head {t : Rewrite} (ht : simpleTy t = true) :
    ∃ c s, t.pretty 0 = c :: s ∧ (c = '*' ∨ c = '&' ∨ c = '[' ∨ pathChar c = true) := by
  cases t with
  | tyPtr rw m => cases m <;> exact ⟨_, _, rfl, .inl rfl⟩
  | tyRef rw m => cases m <;> exact ⟨_, _, rfl, .inr (.inl rfl)⟩
  | tySlice rw => exact ⟨_, _, rfl, .inr (.inr (.inl rfl))⟩
  | printTy s =>
    obtain ⟨c, s', hs, hc, -⟩ := isName_cons (s := s.toList) ht
    exact ⟨c, s', by simp only [pretty, hs], .inr (.inr (.inr hc))⟩
  | tyCtor name rws =>
    simp only [simpleTy, Bool.and_eq_true] at ht
    obtain ⟨c, s', hs, hc, -⟩ := isName_cons ht.1.1
    exact ⟨c, _, by rw [pretty, hs]; rfl, .inr (.inr (.inr hc))⟩
  | _ => cases ht

/-- A constructor's one argument, read through the closing `>`. -/
theorem parseArgs_one (n : ℕ) {a : Rewrite} (ha : simpleTy a = true) {r : List Char}
    (h : parseTy n (a.pretty 0 ++ '>' :: r) = some (a, '>' :: r)) :
    parseArgs (n + 1) (a.pretty 0 ++ '>' :: r) = some ([a], r) := by
  obtain ⟨c, s, hs, hc⟩ := pretty_head ha
  have hne : c ≠ '>' := by
    rintro rfl
    rcases hc with h | h | h | h <;> exact absurd h (by decide)
  rw [hs, List.cons_append, parseArgs_ty n _ hne, ← List.cons_append, ← hs, h]
  rfl

/-- No simple type's text, whatever follows it, begins `mut `. -/
theorem stripTok_mut_pretty {t : Rewrite} (ht : simpleTy t = true) {r : List Char}
    (hr : Follows r) : stripTok "mut ".toList (t.pretty 0 ++ r) = none := by
  cases t with
  | tyPtr rw m => cases m <;> rfl
  | tyRef rw m => cases m <;> rfl
  | tySlice rw => rfl
  | printTy s =>
    obtain ⟨-, -, -, -, hall⟩ := isName_cons (s := s.toList) ht
    exact stripTok_mut_name hall fun c hc => ⟨(follows_stop hr c hc).1, (follows_stop hr c hc).2.1⟩
  | tyCtor name rws =>
    simp only [simpleTy, Bool.and_eq_true] at ht
    obtain ⟨-, -, -, -, hall⟩ := isName_cons ht.1.1
    simp only [pretty, List.append_assoc, List.cons_append]
    exact stripTok_mut_name hall fun c hc => by cases hc; decide
  | _ => cases ht

/-- **Completeness.** With fuel above its length, the text of a simple type,
followed by what may follow a type, reads back as the type. -/
theorem parseTy_pretty : ∀ (n : ℕ) (t : Rewrite) (r : List Char), simpleTy t = true →
    Follows r → (t.pretty 0).length < n → parseTy n (t.pretty 0 ++ r) = some (t, r) := by
  intro n
  induction n using Nat.strong_induction_on with
  | _ n ih =>
  intro t r ht hr hn
  obtain ⟨n, rfl⟩ : ∃ m, n = m + 1 := Nat.exists_eq_succ_of_ne_zero (by omega)
  cases t with
  | tyPtr rw m =>
    have hrw : simpleTy rw = true := ht
    have hlen : (rw.pretty 0).length < n := by cases m <;> simp [pretty, ptrPrefix] at hn <;> omega
    simp only [pretty, List.append_assoc, parseTy_ptr, ih n (by omega) rw r hrw hr hlen,
      Option.map_some']
  | tyRef rw m =>
    have hrw : simpleTy rw = true := ht
    have hlen : (rw.pretty 0).length < n := by cases m <;> simp [pretty, refPrefix] at hn <;> omega
    cases m
    · simp only [pretty, List.append_assoc, parseTy_refNot n (stripTok_mut_pretty hrw hr),
        ih n (by omega) rw r hrw hr hlen, Option.map_some']
    · simp only [pretty, List.append_assoc, parseTy_refMut, ih n (by omega) rw r hrw hr hlen,
        Option.map_some']
  | tySlice rw =>
    have hrw : simpleTy rw = true := ht
    have hlen : (rw.pretty 0).length < n := by simp [pretty] at hn; omega
    simp only [pretty, List.cons_append, List.append_assoc, List.singleton_append, List.nil_append,
      parseTy_slice, ih n (by omega) rw _ hrw (follows_cons (.inl rfl)) hlen]
  | printTy s =>
    exact parseTy_nameText n ht fun c hc => ⟨(follows_stop hr c hc).1, (follows_stop hr c hc).2.2⟩
  | tyCtor name rws =>
    simp only [simpleTy, Bool.and_eq_true, decide_eq_true_eq] at ht
    obtain ⟨⟨hname, hlen⟩, hargs⟩ := ht
    obtain ⟨c, s', hs, -, -⟩ := isName_cons hname
    have hn' : (prettyList rws).length + 2 < n := by
      simp only [pretty, List.length_append, List.length_cons, hs, List.length_singleton] at hn
      omega
    obtain ⟨n, rfl⟩ : ∃ m, n = m + 1 := Nat.exists_eq_succ_of_ne_zero (by omega)
    simp only [pretty, List.append_assoc, List.cons_append, parseTy_ctorText _ hname]
    match rws, hlen, hargs, hn' with
    | [], _, _, _ => simp [prettyList, parseArgs_close]
    | [a], _, ha, hn' =>
      simp only [simpleArgs, Bool.and_true] at ha
      have hpa := ih n (by omega) a ('>' :: r) ha (follows_cons (.inr rfl))
        (by simp only [prettyList, List.append_nil] at hn'; omega)
      simp only [prettyList, List.append_nil, List.append_assoc, List.singleton_append,
        List.nil_append, parseArgs_one n ha hpa, Option.map_some']
      rfl
  | _ => cases ht

/-- **The text of a simple type reads back.** For every type tree whose
names are names and whose constructors have at most one argument, parsing
its text with the type grammar gives the tree back. -/
theorem parseType_toString (t : Rewrite) (ht : simpleTy t = true) : parseType t.toString = some t := by
  have h := parseTy_pretty ((t.pretty 0).length + 1) t [] ht (fun _ h => nomatch h) (Nat.lt_succ_self _)
  rw [List.append_nil] at h
  show (match parseTy ((t.pretty 0).length + 1) (t.pretty 0) with
    | some (t, []) => some t
    | _ => none) = some t
  rw [h]

/-- `&mut [*const Vec<i32>]` reads back. -/
theorem mutSliceOfPtrs_reads_back :
    simpleTy (tyRef (tySlice (tyPtr (tyCtor "Vec" [printTy "i32"]) .not)) .mut) = true ∧
      parseType (tyRef (tySlice (tyPtr (tyCtor "Vec" [printTy "i32"]) .not)) .mut).toString =
        some (tyRef (tySlice (tyPtr (tyCtor "Vec" [printTy "i32"]) .not)) .mut) :=
  ⟨by decide, parseType_toString _ (by decide)⟩

end TyGrammar

end C2RustRewrite
