import CodeAtlas.Outline.Record
import CodeAtlas.Parsing.Cache
import CodeAtlas.Proofs.Json.RoundTrip

/-!
# Outlines as texts

An outline is kept as JSON with all its members, and comes back from there as it was (`read?_text`), as
long as its numbers fit 32 bits.
-/

set_option autoImplicit false

namespace CodeAtlas

open Json

/-! ## Members -/

namespace Json

section Members

variable {α β : Type} {read : Json → Option α} {name other : String} {value : Json}
  {ms : List (String × Json)}

/-- In an object with distinct names each member is found. -/
theorem members?_bind {names : List String} {f : Members → Option β} (distinct : (ms.map (·.1)).Nodup) :
    ((obj ms).members? names >>= f) = f fun name => ms.lookup name := by
  have hcount : ∀ name : String, ms.countP (·.1 == name) ≤ 1 := by
    intro name
    have hnames : ms.countP (·.1 == name) = (ms.map (·.1)).count name := by
      rw [List.count, List.countP_map]
      rfl
    rw [hnames]
    exact List.nodup_iff_count.mp distinct name
  rw [members?, if_pos (by simp [hcount])]
  rfl

theorem lookup_tail (h : name ≠ other) : ((other, value) :: ms).lookup name = ms.lookup name := by
  rw [List.lookup_eq_findSome?, List.lookup_eq_findSome?, List.findSome?_cons_of_isNone]
  simp [h]

theorem required_head : required read (fun n => ((name, value) :: ms).lookup n) name = read value := by
  rw [required, List.lookup_cons_self]
  rfl

theorem required_tail (h : name ≠ other) :
    required read (fun n => ((other, value) :: ms).lookup n) name =
      required read (fun n => ms.lookup n) name := by
  rw [required, required, lookup_tail h]

theorem optional_head :
    optional read (fun n => ((name, value) :: ms).lookup n) name = asOption? read value := by
  rw [optional, List.lookup_cons_self]

theorem optional_tail (h : name ≠ other) :
    optional read (fun n => ((other, value) :: ms).lookup n) name =
      optional read (fun n => ms.lookup n) name := by
  rw [optional, optional, lookup_tail h]

end Members

theorem asWord?_ofNat {n : Nat} (h : n < UInt32.size) : asWord? (ofNat n) = some n := by
  show (if n < UInt32.size then some n else none) = some n
  rw [if_pos h]

theorem asListOf?_ofList {α : Type} {write : α → Json} {read : Json → Option α} {xs : List α}
    (h : ∀ x ∈ xs, read (write x) = some x) : asListOf? read (ofList write xs) = some xs :=
  mapM_map_eq_self h

theorem asStrings?_ofList (xs : List String) : asStrings? (ofList str xs) = some xs :=
  asListOf?_ofList fun _ _ => rfl

/-- A member that may be null is read back, if it is not written as null when it is there. -/
theorem asOption?_ofOption {α : Type} {write : α → Json} {read : Json → Option α} {x : Option α}
    (h : ∀ y ∈ x, write y ≠ null ∧ read (write y) = some y) :
    asOption? read (ofOption write x) = some x := by
  cases x with
  | none => rfl
  | some y =>
    obtain ⟨hnull, hread⟩ := h y rfl
    rw [ofOption, asOption?, hread]
    · rfl
    · exact hnull

theorem asText?_ofOption (x : Option String) : asOption? asString? (ofOption str x) = some x :=
  asOption?_ofOption fun _ _ => ⟨by simp, rfl⟩

theorem plain_ofNat (depth : Nat) {n : Nat} (h : n < UInt32.size) : (ofNat n).Plain depth := by
  simp only [ofNat, Plain, UInt64.size]
  simp only [UInt32.size] at h
  omega

theorem plain_strs (depth : Nat) (xs : List String) : (ofList str xs).Plain (depth + 1) := by
  simp [ofList, Plain]

theorem plain_ofList {α : Type} (depth : Nat) {write : α → Json} {xs : List α}
    (h : ∀ x ∈ xs, (write x).Plain depth) : (ofList write xs).Plain (depth + 1) := by
  rw [ofList, Plain]
  simpa using h

theorem plain_ofOption {α : Type} (depth : Nat) {write : α → Json} {x : Option α}
    (h : ∀ y ∈ x, (write y).Plain depth) : (ofOption write x).Plain depth := by
  cases x with
  | none =>
    rw [ofOption, Plain]
    trivial
  | some y => exact h y rfl

theorem plain_text (depth : Nat) (x : Option String) : (ofOption str x).Plain depth :=
  plain_ofOption depth fun s _ => by simp [Plain]

end Json

/-! ## Parts -/

theorem DeclKind.ofJson?_toJson (kind : DeclKind) : ofJson? kind.toJson = some kind := by
  cases kind <;> decide

theorem MetadataKind.ofJson?_toJson (kind : MetadataKind) : ofJson? kind.toJson = some kind := by
  cases kind <;> decide

/-! In each part `Words` says that its numbers fit 32 bits. -/

namespace FlowMetrics

def Words (f : FlowMetrics) : Prop :=
  f.cyclomatic < UInt32.size ∧ f.blocks < UInt32.size ∧ f.edges < UInt32.size ∧
    f.maxNesting < UInt32.size

theorem ofJson?_toJson {f : FlowMetrics} (h : f.Words) : ofJson? f.toJson = some f := by
  obtain ⟨hcyclomatic, hblocks, hedges, hnesting⟩ := h
  rw [ofJson?, toJson, members?_bind]
  · simp [required_head, required_tail, asWord?_ofNat hcyclomatic, asWord?_ofNat hblocks,
      asWord?_ofNat hedges, asWord?_ofNat hnesting]
  · simp

theorem plain_toJson (depth : Nat) {f : FlowMetrics} (h : f.Words) : f.toJson.Plain (depth + 1) := by
  obtain ⟨hcyclomatic, hblocks, hedges, hnesting⟩ := h
  simp [toJson, Plain, plain_ofNat, hcyclomatic, hblocks, hedges, hnesting]

end FlowMetrics

namespace Declaration

def Words (d : Declaration) : Prop :=
  d.firstLine < UInt32.size ∧ d.lastLine < UInt32.size ∧ d.complexity < UInt32.size ∧
    ∀ f ∈ d.flow, f.Words

theorem ofJson?_toJson {d : Declaration} (h : d.Words) : ofJson? d.toJson = some d := by
  obtain ⟨hfirst, hlast, hcomplexity, hflow⟩ := h
  have hflow : asOption? FlowMetrics.ofJson? (ofOption FlowMetrics.toJson d.flow) = some d.flow :=
    asOption?_ofOption fun f hf =>
      ⟨by simp [FlowMetrics.toJson], FlowMetrics.ofJson?_toJson (hflow f hf)⟩
  have hlines : linesOfJson? (arr [ofNat d.firstLine, ofNat d.lastLine]) =
      some (d.firstLine, d.lastLine) := by
    simp [linesOfJson?, asWord?_ofNat hfirst, asWord?_ofNat hlast]
  rw [ofJson?, toJson, members?_bind]
  · simp only [required_head, required_tail, optional_head, optional_tail, ne_eq, String.reduceEq,
      not_false_eq_true, hlines, asBool?, asString?, DeclKind.ofJson?_toJson, asStrings?_ofList,
      asText?_ofOption, asWord?_ofNat hcomplexity, hflow]
    rfl
  · simp

theorem plain_toJson (depth : Nat) {d : Declaration} (h : d.Words) : d.toJson.Plain (depth + 2) := by
  obtain ⟨hfirst, hlast, hcomplexity, hflow⟩ := h
  have hflow := plain_ofOption (depth + 1) fun f hf => FlowMetrics.plain_toJson depth (hflow f hf)
  simp [toJson, DeclKind.toJson, Plain, plain_ofNat, plain_strs, plain_text, hfirst, hlast,
    hcomplexity, hflow]

end Declaration

namespace CallSite

def Words (c : CallSite) : Prop := c.line < UInt32.size

theorem ofJson?_toJson {c : CallSite} (h : c.Words) : ofJson? c.toJson = some c := by
  rw [ofJson?, toJson, members?_bind]
  · simp [required_head, required_tail, optional_head, optional_tail, asString?, asText?_ofOption,
      asWord?_ofNat h]
  · simp

theorem plain_toJson (depth : Nat) {c : CallSite} (h : c.Words) : c.toJson.Plain (depth + 1) := by
  simp [toJson, Plain, plain_text, plain_ofNat depth h]

end CallSite

namespace Mention

def Words (m : Mention) : Prop := m.line < UInt32.size

theorem ofJson?_toJson {m : Mention} (h : m.Words) : ofJson? m.toJson = some m := by
  rw [ofJson?, toJson, members?_bind]
  · simp [required_head, required_tail, optional_head, asString?, asText?_ofOption,
      MetadataKind.ofJson?_toJson, asWord?_ofNat h]
  · simp

theorem plain_toJson (depth : Nat) {m : Mention} (h : m.Words) : m.toJson.Plain (depth + 1) := by
  simp [toJson, MetadataKind.toJson, Plain, plain_text, plain_ofNat depth h]

end Mention

namespace Descriptor

def Words (d : Descriptor) : Prop := d.attributeCount < UInt32.size

theorem ofJson?_toJson {d : Descriptor} (h : d.Words) : ofJson? d.toJson = some d := by
  have hkind : asOption? MetadataKind.ofJson? (ofOption MetadataKind.toJson d.kind) = some d.kind :=
    asOption?_ofOption fun kind _ => ⟨by simp [MetadataKind.toJson], kind.ofJson?_toJson⟩
  rw [ofJson?, toJson, members?_bind]
  · simp [required_head, required_tail, optional_head, asString?, asStrings?_ofList, hkind,
      asWord?_ofNat h]
  · simp

theorem plain_toJson (depth : Nat) {d : Descriptor} (h : d.Words) : d.toJson.Plain (depth + 2) := by
  have hkind : (ofOption MetadataKind.toJson d.kind).Plain (depth + 1) :=
    plain_ofOption (depth + 1) fun kind _ => by simp [MetadataKind.toJson, Plain]
  simp [toJson, Plain, plain_strs, hkind, plain_ofNat _ h]

end Descriptor

namespace OutlineFlags

theorem ofJson?_toJson (f : OutlineFlags) : ofJson? f.toJson = some f := by
  rw [ofJson?, toJson, members?_bind]
  · simp [required_head, required_tail, asBool?]
  · simp

theorem plain_toJson (depth : Nat) (f : OutlineFlags) : f.toJson.Plain (depth + 1) := by
  simp [toJson, Plain]

end OutlineFlags

/-! ## Outlines -/

namespace Outline

structure Words (o : Outline) : Prop where
  declarations : ∀ d ∈ o.declarations, d.Words
  calls : ∀ c ∈ o.calls, c.Words
  mentions : ∀ m ∈ o.mentions, m.Words
  descriptor : ∀ d ∈ o.descriptor, d.Words
  loc : o.loc < UInt32.size

theorem ofJson?_toJson {o : Outline} (h : o.Words) : ofJson? o.toJson = some o := by
  have hdeclarations : asListOf? Declaration.ofJson? (ofList Declaration.toJson o.declarations) =
      some o.declarations := asListOf?_ofList fun d hd => Declaration.ofJson?_toJson (h.declarations d hd)
  have hcalls : asListOf? CallSite.ofJson? (ofList CallSite.toJson o.calls) = some o.calls :=
    asListOf?_ofList fun c hc => CallSite.ofJson?_toJson (h.calls c hc)
  have hmentions : asListOf? Mention.ofJson? (ofList Mention.toJson o.mentions) = some o.mentions :=
    asListOf?_ofList fun m hm => Mention.ofJson?_toJson (h.mentions m hm)
  have hdescriptor : asOption? Descriptor.ofJson? (ofOption Descriptor.toJson o.descriptor) =
      some o.descriptor := asOption?_ofOption fun d hd =>
    ⟨by simp [Descriptor.toJson], Descriptor.ofJson?_toJson (h.descriptor d hd)⟩
  rw [ofJson?, toJson, members?_bind]
  · simp [required_head, required_tail, optional_head, optional_tail, hdeclarations, hcalls, hmentions,
      hdescriptor, OutlineFlags.ofJson?_toJson, asWord?_ofNat h.loc]
  · simp

theorem plain_toJson (depth : Nat) {o : Outline} (h : o.Words) : o.toJson.Plain (depth + 4) := by
  have hdeclarations := plain_ofList (depth + 2) fun d hd =>
    Declaration.plain_toJson depth (h.declarations d hd)
  have hcalls := plain_ofList (depth + 2) fun c hc => CallSite.plain_toJson (depth + 1) (h.calls c hc)
  have hmentions := plain_ofList (depth + 2) fun m hm =>
    Mention.plain_toJson (depth + 1) (h.mentions m hm)
  have hdescriptor := plain_ofOption (depth + 3) fun d hd =>
    Descriptor.plain_toJson (depth + 1) (h.descriptor d hd)
  have hflags := OutlineFlags.plain_toJson (depth + 2) o.flags
  simp [toJson, Plain, hdeclarations, hcalls, hmentions, hdescriptor, hflags, plain_ofNat _ h.loc]

end Outline

/-- The text of an outline is read as the outline. -/
theorem StoredOutline.read?_text {o : Outline} (h : o.Words) :
    (foreign (written o).text).read? = some o := by
  have hparse : parseLoosely? o.toJson.write = some o.toJson :=
    parseLoosely?_write (Outline.plain_toJson 123 h)
  show (parseLoosely? o.toJson.write).bind Outline.ofJson? = some o
  rw [hparse, Option.bind_some, Outline.ofJson?_toJson h]

end CodeAtlas
