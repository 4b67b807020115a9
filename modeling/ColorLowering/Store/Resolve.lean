import ColorLowering.Program
import ColorLowering.Store.Basic
import ColorLowering.Store.Unfolding

/-!
# From the store to a program

Identities are followed until only trees are left. Where a reference leads back to what contains it,
or to nothing, the tree ends unresolved. A call keeps the default of a parameter only where no
argument is given, which is where lowering needs it.
-/
namespace ColorLowering.Store

/-- A type that was never given out reads as `void`. -/
def ty (types : Array (Option Ty)) (id : TypeId) : Ty := (types.getD id.index none).getD .void

def symbolKind (names : NameStore) (types : Array (Option Ty)) : SymbolShape → SymbolKind
  | .var t writable => .var (ty types t) writable
  | .fn params ret =>
    .fn (params.map fun p => ⟨names.lookup p.name, ty types p.ty, p.access⟩) (ty types ret)

def symbol (names : NameStore) (types : Array (Option Ty)) (e : SymbolEntry) : Symbol :=
  ⟨names.lookup e.name, e.module, symbolKind names types e.shape⟩

section
variable (s : Store) (types : Array (Option Ty))

def slot? (part : ExprId → Option Expr) (supplied i : Nat) (p : ParamEntry) : Option Slot :=
  let name := s.names.lookup p.name
  match p.default with
  | some id =>
    if i < supplied then some (.required name (ty types p.ty))
    else (part id).map (.optional name (ty types p.ty) id)
  | none => some (.required name (ty types p.ty))

def callee? (part : ExprId → Option Expr) (supplied : Nat) (callee : ExprId) : Option Callee :=
  match (s.exprs[callee.index]?).map ExprEntry.node with
  | some (.name symbol) =>
    match (s.symbols[symbol.index]?).map SymbolEntry.shape with
    | some (.fn params _) => do
      let slots ← params.zipIdx.mapM fun (p, i) => s.slot? types part supplied i p
      return .function symbol slots
    | _ => some (.variable symbol)
  | _ => some .computed

/-- The tree of an entry, if every part has one. -/
def exprOfParts? (part : ExprId → Option Expr) (e : ExprEntry) : Option Expr := do
  let ty := ty types e.ty
  match e.node with
  | .value v => return .literal ty (.scalar v)
  | .string text => return .literal ty (.string (s.names.lookup text))
  | .name symbol => return .name ty symbol
  | .binary op operandTy left right =>
    return .binary ty op (Store.ty types operandTy) (← part left) (← part right)
  | .unary op operand => return .unary ty op (← part operand)
  | .index array position => return .index ty (← part array) (← part position)
  | .member object name => return .member ty (← part object) (s.names.lookup name)
  | .call callee args =>
    let args ← (args.read s.exprLists).mapM part
    return .call ty (← s.callee? types part args.length callee) args
  | .aggregate leaves => return .aggregate ty (← (leaves.read s.exprLists).mapM part)
  | .size array => return .size ty (← part array)

/-- Where an expression is cut, its type is still known. -/
def exprTrees : Array Expr :=
  Unfolding.trees {
    count := s.exprs.size
    build part i := s.exprs[i]?.bind (s.exprOfParts? types fun e => part e.index)
    cut i := .unresolved ((s.exprs[i]?.map (ty types ·.ty)).getD .void) }

end

section
variable (s : Store) (expr : ExprId → Expr)

def stmtOfParts? (part : StmtId → Option Stmt) (e : StmtEntry) : Option Stmt := do
  let body := fun (r : Span) => (r.read s.stmtLists).mapM part
  match e with
  | .declare symbol init => return .declare symbol (init.map expr)
  | .assign target value => return .assign (expr target) (expr value)
  | .eval e => return .eval (expr e)
  | .branch cond thenBody elseBody =>
    return .branch (expr cond) (← body thenBody) (← body elseBody)
  | .loop cond b => return .loop (expr cond) (← body b)
  | .ret value => return .ret (value.map expr)

def stmtTrees : Array Stmt :=
  Unfolding.trees {
    count := s.stmts.size
    build part i := s.stmts[i]?.bind (s.stmtOfParts? expr fun st => part st.index)
    cut _ := .unresolved }

def module (types : Array (Option Ty)) (stmt : StmtId → Stmt) (m : ModuleEntry) : Module where
  name := s.names.lookup m.name
  file := m.file
  structs := m.structs.map (ty types)
  constants := m.constants.map fun (symbol, init) => ⟨symbol, init.map expr⟩
  functions := m.functions.map fun (symbol, body) => ⟨symbol, (body.read s.stmtLists).map stmt⟩

end

def program (s : Store) : Program :=
  let types := s.types.trees s.names
  let exprs := s.exprTrees types
  let expr := fun (id : ExprId) => exprs.getD id.index (.unresolved .void)
  let stmts := s.stmtTrees expr
  let stmt := fun (id : StmtId) => stmts.getD id.index .unresolved
  ⟨s.symbols.map (symbol s.names types), s.modules.map (s.module expr types stmt)⟩

end ColorLowering.Store
