/-!
# Lua syntax trees

Parentheses leave no trace in a tree.
-/

namespace WatchFace.Lua

mutual

/-- An expression; a name, a literal, a function and an operator with one operand know the line of their first token,
    and the further `arguments` of a function do not. -/
inductive Expr where
  | name (id : String) (line : Nat)
  | literal (text : String) (line : Nat)
  | arguments
  | string (value : String) (line : Nat)
  | function (params : List String) (body : List Stat) (line : Nat)
  | table (fields : List Field)
  | unary (op : String) (operand : Expr) (line : Nat)
  | binary (op : String) (left right : Expr)
  | index (value key : Expr)
  | call (callee : Expr) (args : List Expr)
  | invoke (receiver : Expr) (method : String) (args : List Expr)

inductive Field where
  | keyed (key value : Expr)
  | item (value : Expr)

/-- A statement; a function statement knows the line of its first token. -/
inductive Stat where
  | assign (targets values : List Expr)
  | bare (expr : Expr)
  | loop (test : Expr) (body : List Stat)
  | untilLoop (body : List Stat) (test : Expr)
  | locals (names : List String) (values : List Expr)
  | localFunction (name : String) (params : List String) (body : List Stat) (line : Nat)
  | function (path : List String) (params : List String) (body : List Stat) (line : Nat)
  | method (path : List String) (name : String) (params : List String) (body : List Stat)
  | choice (test : Expr) (body otherwise : List Stat)
  | count (var : String) (start stop : Expr) (step : Option Expr) (body : List Stat)
  | iterate (vars : List String) (sources : List Expr) (body : List Stat)
  | block (body : List Stat)
  | goto (label : String)
  | label (name : String)
  | leave
  | empty
  | yield (values : List Expr)

end

/-- The line on which an expression starts: that of the first token of its leftmost part. Further
    arguments, tables and operators with two operands have none. -/
def Expr.line? : Expr → Option Nat
  | .name _ l | .literal _ l | .string _ l | .function _ _ l | .unary _ _ l => some l
  | .arguments | .table _ | .binary _ _ _ => none
  | .index v _ => v.line?
  | .call c _ => c.line?
  | .invoke r _ _ => r.line?

def Expr.calledName? : Expr → Option String
  | .name id _ => some id
  | .index _ (.name id _) => some id
  | _ => none

/-- A call with its arguments, or a function statement named by a single name. -/
inductive Site where
  | call (callee : Expr) (args : List Expr)
  | definition (name : String) (line : Nat)

mutual

def Expr.sites : Expr → List Site
  | .name _ _ | .literal _ _ | .arguments | .string _ _ => []
  | .function _ body _ => blockSites body
  | .table fields => fieldsSites fields
  | .unary _ e _ => e.sites
  | .binary _ l r => l.sites ++ r.sites
  | .index v k => v.sites ++ k.sites
  | .call c args => .call c args :: (c.sites ++ exprsSites args)
  | .invoke r _ args => r.sites ++ exprsSites args

def exprsSites : List Expr → List Site
  | [] => []
  | e :: es => e.sites ++ exprsSites es

def Field.sites : Field → List Site
  | .keyed k v => k.sites ++ v.sites
  | .item v => v.sites

def fieldsSites : List Field → List Site
  | [] => []
  | f :: fs => f.sites ++ fieldsSites fs

def Stat.sites : Stat → List Site
  | .assign ts vs => exprsSites ts ++ exprsSites vs
  | .bare e => e.sites
  | .loop t b => t.sites ++ blockSites b
  | .untilLoop b t => blockSites b ++ t.sites
  | .locals _ vs => exprsSites vs
  | .localFunction n _ b l => .definition n l :: blockSites b
  | .function [n] _ b l => .definition n l :: blockSites b
  | .function _ _ b _ => blockSites b
  | .method _ _ _ b => blockSites b
  | .choice t b o => t.sites ++ blockSites b ++ blockSites o
  | .count _ a z (some s) b => a.sites ++ z.sites ++ s.sites ++ blockSites b
  | .count _ a z none b => a.sites ++ z.sites ++ blockSites b
  | .iterate _ es b => exprsSites es ++ blockSites b
  | .block b => blockSites b
  | .goto _ | .label _ | .leave | .empty => []
  | .yield vs => exprsSites vs

def blockSites : List Stat → List Site
  | [] => []
  | s :: ss => s.sites ++ blockSites ss

end

end WatchFace.Lua
