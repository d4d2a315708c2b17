import CodeAtlas.Parsing.Parser
import CodeAtlas.Proofs.History

/-!
# How calls fail

The ids of declarations, of shared nodes and of placeholders are texts of one kind, and what keeps them
apart are the marks that the latter begin with. As long as no unit claims an id with such a mark, the
bookkeeping mirrors the graph, every plan can be written, and all that a call can be refused for is an
empty id; it is refused before anything is written, so that the next call finds builder and graph as
they were. A unit that does claim such an id can make a plan that the graph does not accept, for either
of the two reasons it has.
-/

set_option autoImplicit false

namespace CodeAtlas

open Std

namespace Builder

variable {b : Builder} {g : PropertyGraph} {markers : List String}
  {units : ParsedUnit → Prop}

/-- Whether a unit claims an empty id. -/
def ClaimsEmpty (markers : List String) (p : ParsedUnit) : Prop :=
  ∃ node ∈ (Fragment.build markers p).nodes, node.id.text = ""

instance (markers : List String) (p : ParsedUnit) : Decidable (ClaimsEmpty markers p) :=
  inferInstanceAs (Decidable (∃ node ∈ (Fragment.build markers p).nodes, node.id.text = ""))

/-- What becomes of a call: it is carried out, and builder and graph mirror each other again, or it is
refused for an empty id that one of its units claims, and nothing has changed. -/
inductive Handled (b : Builder) (g : PropertyGraph) (incoming : List ParsedUnit) :
    Except GraphError (Delta × Builder) × PropertyGraph → Prop
  | done {δ : Delta} {b' : Builder} {g' : PropertyGraph} (settings : b'.markers = b.markers)
      (mirrors : b'.book.Mirrors g') : Handled b g incoming (.ok (δ, b'), g')
  | refused {p : ParsedUnit} (brought : p ∈ incoming) (empty : ClaimsEmpty b.markers p) :
      Handled b g incoming (.error (.invalidProps "" "empty node id"), g)

/-- One call. -/
theorem handled_request (hu : Unreserved b.markers units) (m : b.book.Mirrors g) {call : Request}
    (hunits : ∀ p ∈ call.incoming, units p) : Handled b g call.incoming (b.request call g) := by
  rcases b.request_cases PropertyGraph call with hnone | ⟨changes, hnodup, hputs, hsome⟩
  · rw [hnone]
    exact .done rfl m
  rw [hsome]
  obtain ⟨puts, c⟩ := m.planned (hu.changes hnodup fun p hp => hunits p (hputs p hp))
  by_cases valid : (b.book.draftOn g b.markers changes).plan.Valid
  · obtain ⟨g', hw⟩ := c.exists_written
    rw [apply_ok rfl valid hw]
    exact .done rfl (c.mirrors_written hw)
  · -- The check comes before the first step, so the graph is the old one.
    obtain ⟨node, hn, e, he, hrun⟩ := apply_invalid valid
    rw [hrun]
    rcases c.planned_node hn with hvalid | ⟨p, hp, hf, howned⟩
    · rw [hvalid] at he
      cases he
    · obtain ⟨hid, rfl⟩ := howned.of_validate_error he
      exact .refused (hputs p hp) ⟨node, hf, hid⟩

/-- An answer that a call may get: it is carried out, or an empty id of one of its units is refused. -/
def Answered (markers : List String) (call : Request)
    (answer : Except GraphError Delta × PropertyGraph) : Prop :=
  (∃ δ, answer.1 = .ok δ) ∨
    (answer.1 = .error (.invalidProps "" "empty node id") ∧
      ∃ p ∈ call.incoming, ClaimsEmpty markers p)

/-- One call after another. -/
theorem answers_of_mirrors (hu : Unreserved markers units) {calls : List Request}
    (hmarkers : b.markers = markers) (m : b.book.Mirrors g)
    (hunits : ∀ call ∈ calls, ∀ p ∈ call.incoming, units p) :
    List.Forall₂ (Answered markers) calls (b.answers g calls) := by
  induction calls generalizing b g with
  | nil => exact .nil
  | cons call rest ih =>
    subst hmarkers
    have hrest := fun later hl => hunits later (List.mem_cons_of_mem call hl)
    have hcall := handled_request hu m (hunits call List.mem_cons_self)
    rw [answers]
    -- Whatever the call came to, the rest starts from a builder and a graph that mirror each other.
    generalize b.request call g = run at hcall
    cases hcall with
    | done settings mirrors => exact .cons (.inl ⟨_, rfl⟩) (ih settings mirrors hrest)
    | refused brought empty => exact .cons (.inr ⟨rfl, _, brought, empty⟩) (ih rfl m hrest)

/-- **Calls fail for empty ids only.** From the start on, and after refusals too, every call over units
that claim no reserved id is carried out, unless one of its units claims an empty id. So no such call
meets a node of another kind or an edge without its ends. -/
theorem answers_ok_or_empty (hu : Unreserved markers units) (policy : RetryPolicy)
    {calls : List Request} (hunits : ∀ call ∈ calls, ∀ p ∈ call.incoming, units p) :
    List.Forall₂ (Answered markers) calls (answers { markers, policy } {} calls) :=
  answers_of_mirrors hu rfl Bookkeeping.mirrors_empty hunits

/-! ## Modules read from their texts -/

/-- A module and what reading its text finds. -/
def readModule (path text : String) : ParsedUnit :=
  ⟨.ofUnit (.ofText path .sourceModule text), .ofModule text⟩

/-- A module that names a requirement. -/
def sampleTraced : ParsedUnit :=
  readModule "src/A.bsl" "// @requirement X\nProcedure F()\nEndProcedure\n"

/-- A module at a path with nothing before the extension, which leaves its id empty. -/
def sampleNameless : ParsedUnit := readModule ".bsl" "Procedure F()\nEndProcedure\n"

/-- The second call is refused, and the third finds the first module still there. -/
theorem answers_ok_or_empty_sample :
    let calls : List Request :=
      [.ingest [sampleTraced], .ingest [sampleNameless], .remove "src/A.bsl"]
    Unreserved ["test"] (· ∈ [sampleTraced, sampleNameless]) ∧
    ¬ ClaimsEmpty ["test"] sampleTraced ∧ ClaimsEmpty ["test"] sampleNameless ∧
    List.Forall₂ (Answered ["test"]) calls (answers { markers := ["test"] } {} calls) := by
  intro calls
  have hu : ∀ p ∈ [sampleTraced, sampleNameless], ∀ node ∈ (Fragment.build ["test"] p).nodes,
      node.id.isReserved = false := by decide +kernel
  refine ⟨hu, by decide +kernel, by decide +kernel, answers_ok_or_empty hu {} ?_⟩
  simp [calls, Request.incoming]

/-- Why calls failed, where they did. -/
def failures (answers : List (Except GraphError Delta × PropertyGraph)) : List (Option GraphError) :=
  answers.map fun answer => match answer.1 with
    | .ok _ => none
    | .error e => some e

/-- **Reserved names.** The declarations of a module named `requirement` share their ids with
requirements, and those of a module named `unknown` with placeholders. A requirement of that name, or a
call that waits for it, and the module is not accepted: there is a node of another kind, or an edge is
to end at a node that is not there. -/
theorem answers_clash_with_marks :
    (UnitKind.classify "requirement.bsl" = some .sourceModule ∧
      failures (answers { markers := ["test"] } {}
        [.ingest [sampleTraced],
         .ingest [readModule "requirement.bsl" "Procedure X()\nEndProcedure\n"]]) =
        [none, some (.kindConflict "requirement::X" "requirement" "procedure")]) ∧
    (UnitKind.classify "unknown.bsl" = some .sourceModule ∧
      failures (answers { markers := ["test"] } {}
        [.ingest [readModule "src/A.bsl" "Procedure P()\n f();\nEndProcedure\n"],
         .ingest [readModule "unknown.bsl" "Procedure f()\nEndProcedure\n"]]) =
        [none, some (.danglingEdge "src.A::P" "unknown::f" "CALLS")]) := by
  decide +kernel

end Builder

end CodeAtlas
