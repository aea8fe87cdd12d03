import Mathlib.Data.List.Infix
import Mathlib.Data.List.Sort
import Pyhems.Library.Dict
import Pyhems.Protocol.Bytes

/-! The worksheet of property roles. A run of the script refreshes what the MRA says of the properties and
keeps what a reviewer wrote, the role and the comment. -/
namespace Pyhems.Generator
open Library
open Protocol (hexUpper)

/-! ### Cells -/

/-- The value of a cell; `other` is one that is neither a string, a number nor a truth value, with its text. -/
inductive Cell where
  | empty
  | text (s : String)
  | flag (b : Bool)
  | number (n : Int)
  | other (s : String)
  deriving DecidableEq

/-- `ALL_COLUMNS`. -/
inductive Column where
  | classCode
  | epc
  | classNameJa
  | nameEn
  | nameJa
  | descriptionJa
  | get
  | set
  | unit
  | format
  | status
  | candidateRole
  | role
  | comment
  | isNew
  | mraChanged
  deriving DecidableEq

def digitValue (base : Nat) (c : Char) : Option Nat :=
  let value :=
    if '0' ≤ c ∧ c ≤ '9' then c.toNat - '0'.toNat
    else if 'a' ≤ c ∧ c ≤ 'f' then c.toNat - 'a'.toNat + 10
    else if 'A' ≤ c ∧ c ≤ 'F' then c.toNat - 'A'.toNat + 10
    else base
  if value < base then some value else none

/-- The rest of a literal, in which an underscore may stand before a digit. -/
def parseDigits (base value : Nat) : List Char → Option Nat
  | [] => some value
  | '_' :: c :: cs =>
    match digitValue base c with
    | some d => parseDigits base (value*base+d) cs
    | none => none
  | c :: cs =>
    match digitValue base c with
    | some d => parseDigits base (value*base+d) cs
    | none => none

/-- A literal without a sign. One that begins with a zero and has no prefix is zero. -/
def parseLiteral : List Char → Option Nat
  | '0' :: 'x' :: c :: cs | '0' :: 'X' :: c :: cs => parseDigits 16 0 (c :: cs)
  | '0' :: 'o' :: c :: cs | '0' :: 'O' :: c :: cs => parseDigits 8 0 (c :: cs)
  | '0' :: 'b' :: c :: cs | '0' :: 'B' :: c :: cs => parseDigits 2 0 (c :: cs)
  | '0' :: cs => (parseDigits 10 0 cs).filter (· = 0)
  | c :: cs => if c = '_' then none else parseDigits 10 0 (c :: cs)
  | [] => none

def isSpace (c : Char) : Bool :=
  let n := c.toNat
  decide (9 ≤ n ∧ n ≤ 13 ∨ 28 ≤ n ∧ n ≤ 32 ∨ n = 0x85 ∨ n = 0xA0 ∨ n = 0x1680 ∨ 0x2000 ≤ n ∧ n ≤ 0x200A ∨
    n = 0x2028 ∨ n = 0x2029 ∨ n = 0x202F ∨ n = 0x205F ∨ n = 0x3000)

/-- A text without the blanks at its ends. -/
def strip (blank : Char → Bool) (text : String) : List Char :=
  ((text.toList.dropWhile blank).reverse.dropWhile blank).reverse

/-- What `int` takes for a blank: the separators 0x1C to 0x1F are none. -/
def intBlank (c : Char) : Bool := isSpace c && decide (c.toNat < 28 ∨ 31 < c.toNat)

/-- `int(value, 0)`, for a text without decimal digits other than those of ASCII. -/
def parseInt (value : String) : Option Int :=
  match strip intBlank value with
  | '-' :: cs => (parseLiteral cs).map fun n : Nat => -(n:Int)
  | '+' :: cs => (parseLiteral cs).map fun n : Nat => (n:Int)
  | cs => (parseLiteral cs).map fun n : Nat => (n:Int)

/-- `_parse_hex_int`; a truth value is an integer. -/
def parseHexInt : Cell → Option Int
  | .number n => some n
  | .flag b => some (if b then 1 else 0)
  | .text s => parseInt s
  | _ => none

/-- `"" if value is None else str(value)`. -/
def Cell.str : Cell → String
  | .empty => ""
  | .text s => s
  | .flag b => if b then "True" else "False"
  | .number n => toString n
  | .other s => s

/-! ### Rows -/

/-- A class code and an EPC. -/
abbrev RoleKey := Int × Int

abbrev Row := Column → Cell

/-- The class code and the EPC of a row, if both are there. -/
def rowKey (row : Row) : Option RoleKey :=
  match parseHexInt (row .classCode), parseHexInt (row .epc) with
  | some classCode, some epc => some (classCode,epc)
  | _, _ => none

/-- What the scan of the MRA tells of a property. -/
structure PropertyInfo where
  classNameJa : String
  nameEn : String
  nameJa : String
  descriptionJa : String
  get : String
  set : String
  unit : String
  format : String

/-- `HEADER`. -/
def visibleColumns : List Column :=
  [.classCode,.epc,.classNameJa,.nameEn,.nameJa,.descriptionJa,.get,.set,.unit,.format,.status,.candidateRole,.role,
    .comment]

/-- `HIDDEN_HEADER`. -/
def hiddenColumns : List Column := [.isNew,.mraChanged]

def trackedFields : List Column := [.nameEn,.get,.set,.unit,.format]

def specificationKeywords : List String := ["rated","capacity","number of effective digits","tolerance class"]

def statusKeywords : List String :=
  ["fault","abnormal","emergency","exceptional","maintenance","filter change","battery level",
    "remote control setting status"]

def settingKeywords : List String := ["reset","threshold","reservation","timer","mute","volume","limit"]

def hasKeyword (name keyword : String) : Bool := decide (keyword.toList <:+: name.toList)

def candidateRole (nameEn set unit : String) : String :=
  let name := nameEn.toLower
  let writable := decide (set ≠ "notApplicable")
  if !writable && specificationKeywords.any (hasKeyword name) then "specification"
  else if !writable && statusKeywords.any (hasKeyword name) then "status"
  else if !writable && decide (unit ≠ "") && hasKeyword name "instantaneous" then "instantaneous"
  else if writable && settingKeywords.any (hasKeyword name) then "setting"
  else ""

/-- The column of a property that the MRA tells. -/
def PropertyInfo.field (props : PropertyInfo) : Column → Option String
  | .classNameJa => some props.classNameJa
  | .nameEn => some props.nameEn
  | .nameJa => some props.nameJa
  | .descriptionJa => some props.descriptionJa
  | .get => some props.get
  | .set => some props.set
  | .unit => some props.unit
  | .format => some props.format
  | _ => none

/-- `mra_changed` of a property that a row is there for. -/
def mraChanged (prior : Column → String) (props : PropertyInfo) : Bool :=
  trackedFields.any fun field => decide (some (prior field) ≠ props.field field)

/-- The body of the loop of `_build_rows`; it leaves the status to the formula. -/
def buildRow (classCode epc : Nat) (props : PropertyInfo) (prior : Option (Column → String)) : Row
  | .classCode => .text ("0x" ++ hexUpper 4 classCode)
  | .epc => .text ("0x" ++ hexUpper 2 epc)
  | .status => .empty
  | .candidateRole => .text (candidateRole props.nameEn props.set props.unit)
  | .role => .text (prior.elim "" fun row => row .role)
  | .comment => .text (prior.elim "" fun row => row .comment)
  | .isNew => .flag prior.isNone
  | .mraChanged => .flag (prior.elim false fun row => mraChanged row props)
  | column => .text ((props.field column).getD "")

/-- The order of pairs. -/
def keyLe (a b : RoleKey) : Prop := a.1 < b.1 ∨ a.1 = b.1 ∧ a.2 ≤ b.2

instance : DecidableRel keyLe := fun _ _ => inferInstanceAs (Decidable (_ ∨ _))

/-- The properties of the MRA, a dict. -/
abbrev Current := List ((Nat × Nat) × PropertyInfo)

def roleKey (key : Nat × Nat) : RoleKey := (key.1,key.2)

/-- `_build_rows`, without the number of rows that it drops. -/
def buildRows (current : Current) (existing : List (RoleKey × (Column → String))) : List (RoleKey × Row) :=
  let sorted := current.insertionSort fun a b => keyLe (roleKey a.1) (roleKey b.1)
  sorted.map fun entry =>
    (roleKey entry.1,buildRow entry.1.1 entry.1.2 entry.2 (Dict.get (roleKey entry.1) existing))

/-! ### The worksheet -/

/-- What the script uses of a worksheet: `cell(row, column).value`, its assignment, `delete_rows(row, 1)`
and `max_row`. -/
structure Worksheet (W : Type) where
  cell : W → Nat → Column → Cell
  setCell : W → Nat → Column → Cell → W
  deleteRow : W → Nat → W
  maxRow : W → Nat

/-- What is documented of these operations. -/
structure Worksheet.Lawful {W : Type} (ops : Worksheet W) : Prop where
  cell_setCell : ∀ sheet rowNum column value rowNum' column',
    ops.cell (ops.setCell sheet rowNum column value) rowNum' column' =
      if rowNum' = rowNum ∧ column' = column then value else ops.cell sheet rowNum' column'
  maxRow_setCell : ∀ sheet rowNum column value,
    ops.maxRow (ops.setCell sheet rowNum column value) = max (ops.maxRow sheet) rowNum
  cell_deleteRow : ∀ sheet rowNum rowNum' column, ops.cell (ops.deleteRow sheet rowNum) rowNum' column =
    ops.cell sheet (if rowNum' < rowNum then rowNum' else rowNum'+1) column
  maxRow_deleteRow : ∀ sheet rowNum, 1 ≤ rowNum → rowNum ≤ ops.maxRow sheet →
    ops.maxRow (ops.deleteRow sheet rowNum) = ops.maxRow sheet-1
  cell_empty : ∀ sheet rowNum column, ops.maxRow sheet < rowNum → ops.cell sheet rowNum column = .empty

/-- `get_column_letter`, for the columns of the sheet. -/
def columnLetter (column : Column) : Char :=
  Char.ofNat ('A'.toNat+(visibleColumns ++ hiddenColumns).idxOf column)

def statusFormula (rowNum : Nat) : String :=
  let cellAt := fun column => (columnLetter column).toString ++ toString rowNum
  "=IF(TRIM(" ++ cellAt .role ++ ")=\"\",IF(" ++ cellAt .isNew ++ ",\"NEW\",\"PENDING\"),IF(" ++ cellAt .mraChanged ++
    ",\"CHANGED\",\"OK\"))"

/-- `refresh_columns`, and the hidden ones. -/
def refreshColumns : List Column :=
  visibleColumns.filter (fun c => decide (c ∉ [Column.status,.role,.comment])) ++ hiddenColumns

namespace Worksheet
variable {W : Type} (ops : Worksheet W)

def rowNums (sheet : W) : List Nat := List.range' 2 (ops.maxRow sheet-1)

/-- `_load_existing_rows` for a sheet that has the columns of this version. -/
def loadExistingRows (sheet : W) : List (RoleKey × (Column → String)) :=
  Dict.ofPairs <| (ops.rowNums sheet).filterMap fun rowNum =>
    let row := ops.cell sheet rowNum
    (rowKey row).map fun key => (key,fun column => (row column).str)

def keyToRow (sheet : W) : List (RoleKey × Nat) :=
  Dict.ofPairs <| (ops.rowNums sheet).filterMap fun rowNum =>
    (rowKey (ops.cell sheet rowNum)).map fun key => (key,rowNum)

def setRow (columns : List Column) (row : Row) (sheet : W) (rowNum : Nat) : W :=
  columns.foldl (fun sheet column => ops.setCell sheet rowNum column (row column)) sheet

variable (rows : List (RoleKey × Row))

/-- Delete the rows of the properties that are gone, from the last one up. -/
def deleteGone (keyToRow : List (RoleKey × Nat)) (sheet : W) : W :=
  (keyToRow.insertionSort fun a b => b.2 ≤ a.2).foldl
    (fun sheet entry => if (Dict.get entry.1 rows).isSome then sheet else ops.deleteRow sheet entry.2) sheet

/-- The rows that are there stay where `key_to_row` has them. -/
def refreshRows (kept : List (RoleKey × Nat)) (sheet : W) : W :=
  kept.foldl (fun sheet entry =>
    match Dict.get entry.1 rows with
    | some row => ops.setRow refreshColumns row sheet entry.2
    | none => sheet) sheet

/-- Append the rows of new properties from a row on, and note where they are. -/
def appendRows (new : List (RoleKey × Row)) (sheet : W) (nextRow : Nat) (keyToRow : List (RoleKey × Nat)) :
    W × List (RoleKey × Nat) :=
  match new with
  | [] => (sheet,keyToRow)
  | entry :: new =>
    let sheet := ops.setRow (refreshColumns ++ [.role,.comment]) entry.2 sheet nextRow
    appendRows new sheet (nextRow+1) (Dict.insert entry.1 nextRow keyToRow)

/-- `_update_workbook_in_place`, as far as the values of the sheet go. -/
def updateInPlace (sheet : W) : W :=
  let keyToRow := ops.keyToRow sheet
  let sheet := ops.deleteGone rows keyToRow sheet
  let kept := keyToRow.filter fun entry => (Dict.get entry.1 rows).isSome
  let sheet := ops.refreshRows rows kept sheet
  let new := rows.filter fun entry => (Dict.get entry.1 kept).isNone
  let (sheet,keyToRow) :=
    ops.appendRows (new.insertionSort fun a b => keyLe a.1 b.1) sheet (ops.maxRow sheet+1) kept
  keyToRow.foldl (fun sheet entry => ops.setCell sheet entry.2 .status (.text (statusFormula entry.2))) sheet

end Worksheet
end Pyhems.Generator
