import CodeAtlas.Parsing.Parser
import CodeAtlas.Proofs.Record

/-!
# Fresh parsers over an old cache

A fresh parser knows nothing but what the store below its cache has for it. So what it makes of a unit
depends on the one row under the unit's key (`parse_start`): if there is none, what it reads is written
there, and if there is one that can be read, that is the answer. In between stands the row that cannot be
read. It counts as absent when it is looked for, and as present when it is written to, so that nothing ever
takes its place (`reparse_hits_iff`).

The store is looked at in two ways, as the outlines that its rows were written from and as the texts
that stand in the database.
-/

set_option autoImplicit false

namespace CodeAtlas

/-! ## Rows -/

/-- The table with every outline as the text that stands in the database. -/
def CacheTable.inText (t : CacheTable) : CacheTable :=
  { t with rows := t.rows.map fun _ row => { row with record := .foreign row.record.text } }

/-- The store with every outline as the text that stands in the database. -/
def CacheStore.inText : CacheStore → CacheStore
  | .table t => .table t.inText
  | store => store

theorem CacheTable.get?_insert {t : CacheTable} {key : CacheKey} (record : StoredOutline) :
    (t.insert key record).get? key = some ((t.get? key).getD record) := by
  unfold insert
  split
  next hc =>
    rw [Std.ExtTreeMap.contains_eq_isSome_getElem?] at hc
    obtain ⟨row, hrow⟩ := Option.isSome_iff_exists.mp hc
    simp [get?, hrow]
  next hc =>
    rw [Bool.not_eq_true, Std.ExtTreeMap.contains_eq_isSome_getElem?, Option.isSome_eq_false_iff,
      Option.isNone_iff_eq_none] at hc
    simp [get?, hc]

theorem CacheTable.insert_eq_self {t : CacheTable} {key : CacheKey} {row : StoredOutline}
    (h : t.get? key = some row) (record : StoredOutline) : t.insert key record = t := by
  have hc : t.rows.contains key = true := by
    rw [Std.ExtTreeMap.contains_eq_isSome_getElem?]
    rw [get?, Option.map_eq_some_iff] at h
    obtain ⟨found, hfound, -⟩ := h
    rw [hfound]
    rfl
  rw [insert, if_pos hc]

theorem CacheTable.get?_inText (t : CacheTable) (key : CacheKey) :
    t.inText.get? key = (t.get? key).map fun row => .foreign row.text := by
  simp [get?, inText, Option.map_map, Function.comp_def]

theorem CacheStore.outline?_table (t : CacheTable) (key : CacheKey) :
    (table t).outline? key = (t.get? key).bind StoredOutline.read? := by
  simp only [outline?, get]
  cases t.get? key <;> rfl

/-- A text is read as the outline that it was written from. -/
theorem StoredOutline.read?_foreign_text {row : StoredOutline} (words : ∀ o, row = written o → o.Words) :
    (foreign row.text).read? = row.read? := by
  cases row with
  | written o => exact read?_text (words o rfl)
  | foreign json => rfl

/-! ## One parse by a fresh parser -/

namespace Parser

variable (p : Parser) (cores : Nat)

theorem cacheHit_read (pool : WorkerPool) (unit : SourceUnit) :
    (p.read pool unit).1.cacheHit = false := by
  unfold read
  dsimp only
  split
  · rfl
  · split <;> rfl

/-- A fresh parser answers with what the store has, or else reads the unit and writes to the store. -/
theorem parse_start (store : CacheStore) (unit : SourceUnit) :
    (∃ o, store.outline? (p.cacheKey unit) = some o ∧
      (p.parse unit (p.start cores store)).1 = { path := unit.path, outline := o, cacheHit := true } ∧
      (p.parse unit (p.start cores store)).2.store = store) ∨
    (store.outline? (p.cacheKey unit) = none ∧
      (p.parse unit (p.start cores store)).1.cacheHit = false ∧
      (p.parse unit (p.start cores store)).2.store = store.keep (p.cacheKey unit)
        (p.parse unit (p.start cores store)).1.outline) := by
  have hmemory : (p.start cores store).cache.memory[p.cacheKey unit]? = none := by simp [start]
  have hstore : (p.start cores store).store = store := rfl
  cases ho : store.outline? (p.cacheKey unit) with
  | some o =>
    refine .inl ⟨o, rfl, ?_⟩
    simp only [parse, ParseCache.get, hmemory, hstore, ho]
    exact ⟨trivial, trivial⟩
  | none =>
    refine .inr ⟨rfl, ?_⟩
    simp only [parse, ParseCache.get, hmemory, hstore, ho]
    exact ⟨p.cacheHit_read _ unit, trivial⟩

/-- A fresh parser finds what the store has. -/
theorem parse_of_outline? {store : CacheStore} {unit : SourceUnit} {o : Outline}
    (h : store.outline? (p.cacheKey unit) = some o) :
    (p.parse unit (p.start cores store)).1.cacheHit = true ∧
      (p.parse unit (p.start cores store)).1.outline = o := by
  rcases p.parse_start cores store unit with ⟨found, hfound, hparse, -⟩ | ⟨hnone, -, -⟩
  · rw [hparse, Option.some.inj (hfound.symm.trans h)]
    exact ⟨rfl, rfl⟩
  · rw [hnone] at h
    cases h

/-- A row that can be read is the answer. -/
theorem outline_parse_of_row {t : CacheTable} {unit : SourceUnit} {row : StoredOutline} {o : Outline}
    (hrow : t.get? (p.cacheKey unit) = some row) (hread : row.read? = some o) :
    (p.parse unit (p.start cores (.table t))).1.outline = o := by
  have hfound : (CacheStore.table t).outline? (p.cacheKey unit) = some o := by
    rw [CacheStore.outline?_table, hrow]
    exact hread
  exact (p.parse_of_outline? cores hfound).2

theorem cacheHit_iff (store : CacheStore) (unit : SourceUnit) :
    (p.parse unit (p.start cores store)).1.cacheHit = true ↔
      (store.outline? (p.cacheKey unit)).isSome := by
  rcases p.parse_start cores store unit with ⟨found, hfound, hparse, -⟩ | ⟨hnone, hmiss, -⟩
  · rw [hparse, hfound]
    exact iff_of_true rfl rfl
  · rw [hmiss, hnone]
    exact iff_of_false Bool.false_ne_true Bool.false_ne_true

/-- A store with a row under the unit's key stays as it is. -/
theorem store_parse_of_row {t : CacheTable} {unit : SourceUnit} {row : StoredOutline}
    (h : t.get? (p.cacheKey unit) = some row) :
    (p.parse unit (p.start cores (.table t))).2.store = .table t := by
  rcases p.parse_start cores (.table t) unit with ⟨-, -, -, hstore⟩ | ⟨-, -, hstore⟩
  · exact hstore
  · rw [hstore]
    exact congrArg CacheStore.table (CacheTable.insert_eq_self h _)

/-- After a parse there is a row under the unit's key: the one that was there, or what was read. -/
theorem store_parse (t : CacheTable) (unit : SourceUnit) :
    ∃ t', (p.parse unit (p.start cores (.table t))).2.store = .table t' ∧
      t'.get? (p.cacheKey unit) = some ((t.get? (p.cacheKey unit)).getD
        (.written (p.parse unit (p.start cores (.table t))).1.outline)) := by
  cases hrow : t.get? (p.cacheKey unit) with
  | some row => exact ⟨t, p.store_parse_of_row cores hrow, hrow⟩
  | none =>
    rcases p.parse_start cores (.table t) unit with ⟨o, hfound, -, -⟩ | ⟨-, -, hstore⟩
    · rw [CacheStore.outline?_table, hrow] at hfound
      cases hfound
    · refine ⟨_, hstore, ?_⟩
      rw [CacheTable.get?_insert, hrow]

/-! ## Any number of fresh parsers -/

/-- The store after some fresh parsers have parsed a unit, each over what the one before has left. -/
def reparsed (unit : SourceUnit) : Nat → CacheStore → CacheStore
  | 0, store => store
  | n + 1, store => reparsed unit n (p.parse unit (p.start cores store)).2.store

theorem reparsed_of_row {t : CacheTable} {unit : SourceUnit} {row : StoredOutline}
    (h : t.get? (p.cacheKey unit) = some row) (n : Nat) :
    p.reparsed cores unit n (.table t) = .table t := by
  induction n with
  | zero => rfl
  | succ n ih => rw [reparsed, p.store_parse_of_row cores h, ih]

/-- After some fresh parsers the row under the unit's key is the one that was there, or what the first has
read. Both views of the store say so. -/
theorem outline?_reparsed (t : CacheTable) (unit : SourceUnit) (others : Nat) :
    let first := p.parse unit (p.start cores (.table t))
    let left := p.reparsed cores unit others first.2.store
    ∀ store, store = left ∨ store = left.inText ∧ first.1.outline.Words →
      store.outline? (p.cacheKey unit) =
        ((t.get? (p.cacheKey unit)).getD (.written first.1.outline)).read? := by
  intro first left store hstore
  obtain ⟨t', ht', hrow⟩ := p.store_parse cores t unit
  have hleft : left = .table t' := by
    show p.reparsed cores unit others first.2.store = _
    rw [ht', p.reparsed_of_row cores hrow]
  rcases hstore with rfl | ⟨rfl, words⟩
  · rw [hleft, CacheStore.outline?_table, hrow]
    rfl
  · rw [hleft, CacheStore.inText, CacheStore.outline?_table, CacheTable.get?_inText, hrow]
    refine StoredOutline.read?_foreign_text fun o ho => ?_
    cases hget : t.get? (p.cacheKey unit) with
    | none =>
      rw [hget] at ho
      exact StoredOutline.written.inj ho ▸ words
    | some row =>
      rw [hget, Option.getD_some] at ho
      have houtline : first.1.outline = o :=
        p.outline_parse_of_row cores hget (congrArg StoredOutline.read? ho)
      exact houtline ▸ words

/-- Once a fresh parser has parsed a unit, and any number of others after it, the next one answers with
its outline from the store just if no row stood under the unit's key that cannot be read. This holds of
the store as it is, and as the texts in the database if the numbers of the outline fit 32 bits. -/
theorem reparse_hits_iff (t : CacheTable) (unit : SourceUnit) (others : Nat) :
    let first := p.parse unit (p.start cores (.table t))
    let left := p.reparsed cores unit others first.2.store
    ∀ store, store = left ∨ store = left.inText ∧ first.1.outline.Words →
      let next := p.parse unit (p.start cores store)
      (next.1.cacheHit = true ∧ next.1.outline = first.1.outline) ↔
        ∀ row, t.get? (p.cacheKey unit) = some row → row.read?.isSome := by
  intro first left store hstore next
  have hread := p.outline?_reparsed cores t unit others store hstore
  cases hget : t.get? (p.cacheKey unit) with
  | none =>
    rw [hget] at hread
    exact iff_of_true (p.parse_of_outline? cores hread) fun row h => by cases h
  | some row =>
    rw [hget, Option.getD_some] at hread
    cases hr : row.read? with
    | some o =>
      rw [hr, ← p.outline_parse_of_row cores hget hr] at hread
      refine iff_of_true (p.parse_of_outline? cores hread) fun row' h => ?_
      rw [← Option.some.inj h, hr]
      rfl
    | none =>
      rw [hr] at hread
      refine iff_of_false (fun hhit => ?_) fun hall => ?_
      · have hsome := (p.cacheHit_iff cores store unit).mp hhit.1
        rw [hread] at hsome
        cases hsome
      · have hsome := hall row rfl
        rw [hr] at hsome
        cases hsome

/-- A parser that measures control flow. -/
def sampleParser : Parser where
  settings := { deepParse := some true }
  analyzer := some .blockStructure

def sampleModule : SourceUnit :=
  .ofText "a.bsl" .sourceModule "Procedure F()\n  G();\nEndProcedure\n"

/-- The outline that the parser reads in the module. -/
def sampleOutline : Outline where
  declarations := [{ name := "F", firstLine := 1, lastLine := 3, flow := some ⟨1, 1, 0, 0⟩ }]
  calls := [⟨some "F", "G", none, 2⟩]
  loc := 3
  flags := { deepApplied := true }

/-- Over an empty table the first parser reads the module, and the third finds its outline in a text. -/
theorem reparse_hits_iff_sample :
    let first := sampleParser.parse sampleModule (sampleParser.start 1 (.table {}))
    let left := sampleParser.reparsed 1 sampleModule 1 first.2.store
    let third := sampleParser.parse sampleModule (sampleParser.start 1 left.inText)
    first.1.cacheHit = false ∧ first.1.outline = sampleOutline ∧
      third.1.cacheHit = true ∧ third.1.outline = first.1.outline := by
  have hfirst : (sampleParser.parse sampleModule (sampleParser.start 1 (.table {}))).1.cacheHit = false ∧
      (sampleParser.parse sampleModule (sampleParser.start 1 (.table {}))).1.outline =
        sampleOutline := by
    decide +kernel
  have words : sampleOutline.Words := by
    constructor <;>
      simp [sampleOutline, Declaration.Words, FlowMetrics.Words, CallSite.Words, UInt32.size]
  have hblank : ∀ row, ({} : CacheTable).get? (sampleParser.cacheKey sampleModule) = some row →
      row.read?.isSome := by simp [CacheTable.get?]
  have hthird := reparse_hits_iff sampleParser 1 {} sampleModule 1 _
    (.inr ⟨rfl, hfirst.2 ▸ words⟩)
  exact ⟨hfirst.1, hfirst.2, hthird.mpr hblank⟩

/-- A table with a row under the key of the sample module that is no JSON. -/
def staleTable : CacheTable :=
  ({} : CacheTable).insert (sampleParser.cacheKey sampleModule) (.foreign "oops")

/-- The row stays where it is, and the second parser reads the module once more. -/
theorem stale_row_stays :
    let first := sampleParser.parse sampleModule (sampleParser.start 1 (.table staleTable))
    let second := sampleParser.parse sampleModule (sampleParser.start 1 first.2.store)
    first.1.cacheHit = false ∧ second.1.cacheHit = false := by
  decide +kernel

end Parser

end CodeAtlas
