import CodeAtlas.Graph.Kind

/-!
# Words with a meaning

Every keyword has an English and a Russian spelling. The tables hold small letters only; whoever
looks a word up lower-cases it first, so that case never matters.
-/

set_option autoImplicit false

namespace CodeAtlas.Source

/-- The keywords of the language. The four literals are one keyword: nothing tells them apart. -/
inductive Keyword where
  | procedure
  | function
  | endProcedure
  | endFunction
  | export
  | val
  | var
  | if
  | then
  | elsIf
  | else
  | endIf
  | while
  | for
  | each
  | in
  | to
  | do
  | endDo
  | try
  | except
  | endTry
  | new
  | return
  | and
  | or
  | not
  | raise
  | break
  | continue
  | literal
deriving DecidableEq, Repr, Inhabited

namespace Keyword

/-- Every spelling of every keyword. -/
def table : List (String × Keyword) :=
  [("procedure", .procedure), ("процедура", .procedure),
   ("function", .function), ("функция", .function),
   ("endprocedure", .endProcedure), ("конецпроцедуры", .endProcedure),
   ("endfunction", .endFunction), ("конецфункции", .endFunction),
   ("export", .export), ("экспорт", .export),
   ("val", .val), ("знач", .val),
   ("var", .var), ("перем", .var),
   ("if", .if), ("если", .if),
   ("then", .then), ("тогда", .then),
   ("elsif", .elsIf), ("иначеесли", .elsIf),
   ("else", .else), ("иначе", .else),
   ("endif", .endIf), ("конецесли", .endIf),
   ("while", .while), ("пока", .while),
   ("for", .for), ("для", .for),
   ("each", .each), ("каждого", .each),
   ("in", .in), ("из", .in),
   ("to", .to), ("по", .to),
   ("do", .do), ("цикл", .do),
   ("enddo", .endDo), ("конеццикла", .endDo),
   ("try", .try), ("попытка", .try),
   ("except", .except), ("исключение", .except),
   ("endtry", .endTry), ("конецпопытки", .endTry),
   ("new", .new), ("новый", .new),
   ("return", .return), ("возврат", .return),
   ("and", .and), ("и", .and),
   ("or", .or), ("или", .or),
   ("not", .not), ("не", .not),
   ("raise", .raise), ("вызватьисключение", .raise),
   ("break", .break), ("прервать", .break),
   ("continue", .continue), ("продолжить", .continue),
   ("true", .literal), ("истина", .literal), ("false", .literal), ("ложь", .literal),
   ("undefined", .literal), ("неопределено", .literal), ("null", .literal)]

/-- The keyword with a given spelling. -/
def ofWord? (word : String) : Option Keyword := table.lookup word

/-- Whether a statement begins right after the keyword. -/
def opensStatement : Keyword → Bool
  | .then | .do | .else | .try | .except | .export => true
  | _ => false

end Keyword

/-! ## Metadata in code and in query text -/

/-- The Russian names of the objects that manage a category. -/
def managerTable : List (String × MetadataKind) :=
  [("справочники", .catalog), ("документы", .document),
   ("регистрысведений", .informationRegister), ("регистрынакопления", .accumulationRegister),
   ("регистрыбухгалтерии", .accountingRegister), ("регистрырасчета", .calculationRegister),
   ("перечисления", .enum), ("константы", .constant), ("отчеты", .report),
   ("обработки", .dataProcessor), ("планывидовхарактеристик", .chartOfCharacteristicTypes),
   ("планысчетов", .chartOfAccounts), ("бизнеспроцессы", .businessProcess), ("задачи", .task),
   ("планыобмена", .exchangePlan), ("журналыдокументов", .documentJournal)]

/-- The category that a global manager object manages. Common modules have no manager. -/
def managerKind? (word : String) : Option MetadataKind :=
  managerTable.lookup word <|> (MetadataKind.ofFolder? word).filter (· != .commonModule)

/-- The Russian names of categories in query text. -/
def singularTable : List (String × MetadataKind) :=
  [("справочник", .catalog), ("документ", .document),
   ("регистрсведений", .informationRegister), ("регистрнакопления", .accumulationRegister),
   ("регистрбухгалтерии", .accountingRegister), ("регистррасчета", .calculationRegister),
   ("перечисление", .enum), ("константа", .constant),
   ("планвидовхарактеристик", .chartOfCharacteristicTypes), ("плансчетов", .chartOfAccounts),
   ("бизнеспроцесс", .businessProcess), ("задача", .task), ("планобмена", .exchangePlan),
   ("журналдокументов", .documentJournal)]

/-- The category that a name in query text means. -/
def singularKind? (word : String) : Option MetadataKind :=
  singularTable.lookup word <|> (MetadataKind.ofName? word).filter (· != .commonModule)

/-- Whether a word names the root of the metadata tree. -/
def isMetadataRoot (word : String) : Bool := ["metadata", "метаданные"].contains word

/-- Whether a word names the module's own object: a call through it stays in the module. -/
def isSelfReference (word : String) : Bool :=
  ["thisobject", "этотобъект", "thisform", "этаформа"].contains word

/-- The platform's own functions, which no module declares. -/
def builtinNames : List String :=
  ["message", "сообщить", "format", "формат", "strlen", "стрдлина", "type", "тип",
   "typeof", "типзнч", "valueisfilled", "значениезаполнено", "nstr", "нстр", "string", "строка",
   "number", "число", "date", "дата", "boolean", "булево", "min", "мин", "max", "макс",
   "currentdate", "текущаядата", "currentsessiondate", "текущаядатасеанса", "round", "окр",
   "int", "цел", "left", "лев", "right", "прав", "mid", "сред", "trimall", "сокрлп",
   "triml", "сокрл", "trimr", "сокрп", "upper", "врег", "lower", "нрег", "find", "найти",
   "strfind", "стрнайти", "strreplace", "стрзаменить", "strtemplate", "стршаблон",
   "strsplit", "стрразделить", "strconcat", "стрсоединить", "begofday", "началодня",
   "endofday", "конецдня", "year", "год", "month", "месяц", "day", "день",
   "fillpropertyvalues", "заполнитьзначениясвойств",
   "predefinedvalue", "предопределенноезначение", "eval", "вычислить", "xmlstring", "xmlстрока"]

def isBuiltin (word : String) : Bool := builtinNames.contains word

end CodeAtlas.Source
