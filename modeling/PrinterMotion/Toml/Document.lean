/-
Building a document from its statements. Tables come into being in four ways: by their own header, on
the way to a deeper header, through dotted keys, and as elements of an array of tables. How a table was
made decides who may add to it: a header opens a table once, and dotted keys add to tables that dotted
keys have made and, where the rules allow it, to those made on the way to a header.
-/
import PrinterMotion.Toml.Rules
import PrinterMotion.Toml.Value

namespace PrinterMotion.Toml

/-- How a table came into being. -/
inductive Origin where
  /-- By its own header, or as an element of an array. -/
  | header
  /-- On the way to a deeper header. -/
  | implied
  /-- Through a dotted key. -/
  | dotted
deriving Repr, DecidableEq

/-- A document under construction: a finished value, a table that may still grow, or an array of
tables with the newest first. -/
inductive Node where
  | value (v : Value)
  | table (origin : Origin) (entries : List (String × Node))
  | tables (newest : List (String × Node)) (older : List (List (String × Node)))

/-- The entries of a table under construction. -/
abbrev Nodes := List (String × Node)

/-- One statement of a document. -/
inductive Statement where
  | header (path : List String)
  | arrayHeader (path : List String)
  | entry (key : List String) (value : Value)

namespace Nodes

/-- The node of a key. -/
def get? (ns : Nodes) (key : String) : Option Node := ns.lookup key

/-- Replaces the node of a key, or adds it at the end. -/
def put (key : String) (n : Node) : Nodes → Nodes
  | [] => [(key, n)]
  | (k, old) :: rest => if k = key then (k, n) :: rest else (k, old) :: put key n rest

/-- Changes the table at a path. Missing tables on the way are made with `made`; the newest element
stands for an array of tables. With `growing` set, tables that have a header are closed. The change is
told how the table at the end of the path came into being. -/
def descend (made : Origin) (growing : Bool) (f : Origin → Nodes → Option Nodes) :
    List String → Origin → Nodes → Option Nodes
  | [], origin, ns => f origin ns
  | key :: path, _, ns =>
    match ns.get? key with
    | none => (descend made growing f path made []).map fun inner => ns.put key (.table made inner)
    | some (.value _) => none
    | some (.table origin inner) =>
      if growing ∧ origin = .header then none
      else (descend made growing f path origin inner).map fun inner => ns.put key (.table origin inner)
    | some (.tables newest older) =>
      (descend made growing f path .header newest).map fun newest => ns.put key (.tables newest older)

/-- Opens the table of a header. It must be new or merely implied. -/
def openTable (key : String) (_ : Origin) (ns : Nodes) : Option Nodes :=
  match ns.get? key with
  | none => some (ns.put key (.table .header []))
  | some (.table .implied inner) => some (ns.put key (.table .header inner))
  | _ => none

/-- Adds an element to the array of a header. -/
def openElement (key : String) (_ : Origin) (ns : Nodes) : Option Nodes :=
  match ns.get? key with
  | none => some (ns.put key (.tables [] []))
  | some (.tables newest older) => some (ns.put key (.tables [] (newest :: older)))
  | _ => none

/-- Whether dotted keys may add to a table. -/
def growsByDots (rules : Rules) : Origin → Bool
  | .header => false
  | .implied => rules.extendsImplied
  | .dotted => true

/-- Adds an entry with a dotted key to a table. -/
def addEntry (rules : Rules) (key : List String) (v : Value) (ns : Nodes) : Option Nodes :=
  match key.getLast? with
  | none => none
  | some last =>
    let way := key.dropLast
    let insert (origin : Origin) (ns : Nodes) : Option Nodes :=
      if (way.isEmpty || growsByDots rules origin) && (ns.get? last).isNone then
        some (ns.put last (.value v))
      else none
    descend .dotted true insert way .header ns

/-- Makes a table of finished entries. -/
def close (ns : Nodes) : Entries := entries ns
where
  /-- The value of a node. -/
  value : Node → Value
    | .value v => v
    | .table _ ns => .table (entries ns)
    | .tables newest older => .array (arrays older [.table (entries newest)])
  /-- The values of the entries of a table. -/
  entries : List (String × Node) → Entries
    | [] => []
    | (key, n) :: rest => (key, value n) :: entries rest
  /-- The elements of an array, given from the newest on, in front of those behind them. -/
  arrays : List (List (String × Node)) → List Value → List Value
    | [], behind => behind
    | ns :: rest, behind => arrays rest (.table (entries ns) :: behind)

end Nodes

/-- A document under construction and the path of the table that entries go to. -/
structure Draft where
  root : Nodes
  path : List String

/-- Takes in one statement. -/
def Draft.add (rules : Rules) (d : Draft) : Statement → Option Draft
  | .header path =>
    match path.getLast? with
    | none => none
    | some key =>
      (Nodes.descend .implied false (Nodes.openTable key) path.dropLast .header d.root).map (⟨·, path⟩)
  | .arrayHeader path =>
    match path.getLast? with
    | none => none
    | some key =>
      (Nodes.descend .implied false (Nodes.openElement key) path.dropLast .header d.root).map (⟨·, path⟩)
  | .entry key v =>
    (Nodes.descend .implied false (fun _ ns => ns.addEntry rules key v) d.path .header d.root).map
      (⟨·, d.path⟩)

/-- The table of an inline table's entries. -/
def inlineTable (rules : Rules) (entries : List (List String × Value)) : Option Value :=
  (entries.foldlM (fun ns (key, v) => Nodes.addEntry rules key v ns) []).map fun ns =>
    .table (Nodes.close ns)

/-- The table of a document's statements. -/
def ofStatements (rules : Rules) (ss : List Statement) : Option Entries :=
  (ss.foldlM (Draft.add rules) ⟨[], []⟩).map fun d => Nodes.close d.root

end PrinterMotion.Toml
