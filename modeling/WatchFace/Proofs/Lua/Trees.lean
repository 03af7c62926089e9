import Mathlib.Data.List.Forall2
import WatchFace.Lua.Syntax
import WatchFace.Proofs.Lua.Hiding

/-!
# Trees of a script with hidden tags
-/

namespace WatchFace.Lua

open List (Forall₂)

/-- What a string is in the other tree, and the lines on which both trees are. -/
structure Likeness where
  string : String → String
  line : Nat → Prop

def hideString (s : String) : String := String.ofList (Tag.hide s.toList)

/-- Strings have their tags hidden, and lines do not matter. -/
abbrev Likeness.hidden : Likeness := ⟨hideString, fun _ => True⟩

mutual

inductive Expr.Like (L : Likeness) : Expr → Expr → Prop
  | name (id : String) {line : Nat} (h : L.line line) : Expr.Like L (.name id line) (.name id line)
  | literal (text : String) {line : Nat} (h : L.line line) : Expr.Like L (.literal text line) (.literal text line)
  | arguments : Expr.Like L .arguments .arguments
  | string (value : String) {line : Nat} (h : L.line line) :
      Expr.Like L (.string value line) (.string (L.string value) line)
  | tag {item : Expr} {name : List Char} (line : Nat) (hitem : item.sites = []) (hname : Tag.IsName name) :
      Expr.Like L (.table [.item item]) (.string (String.ofList (Tag.bare name)) line)
  | function (params : List String) {body body' : List Stat} {line : Nat} (h : L.line line)
      (hbody : Forall₂ (Stat.Like L) body body') : Expr.Like L (.function params body line) (.function params body' line)
  | table {fields fields' : List Field} (h : Forall₂ (Field.Like L) fields fields') :
      Expr.Like L (.table fields) (.table fields')
  | unary (op : String) {e e' : Expr} {line : Nat} (h : L.line line) (he : e.Like L e') :
      Expr.Like L (.unary op e line) (.unary op e' line)
  | binary (op : String) {l l' r r' : Expr} (hl : l.Like L l') (hr : r.Like L r') :
      Expr.Like L (.binary op l r) (.binary op l' r')
  | index {v v' k k' : Expr} (hv : v.Like L v') (hk : k.Like L k') : Expr.Like L (.index v k) (.index v' k')
  | call {c c' : Expr} {args args' : List Expr} (hc : c.Like L c') (hargs : Forall₂ (Expr.Like L) args args') :
      Expr.Like L (.call c args) (.call c' args')
  | invoke {r r' : Expr} (method : String) {args args' : List Expr} (hr : r.Like L r')
      (hargs : Forall₂ (Expr.Like L) args args') : Expr.Like L (.invoke r method args) (.invoke r' method args')

inductive Field.Like (L : Likeness) : Field → Field → Prop
  | keyed {k k' v v' : Expr} (hk : k.Like L k') (hv : v.Like L v') : Field.Like L (.keyed k v) (.keyed k' v')
  | item {v v' : Expr} (hv : v.Like L v') : Field.Like L (.item v) (.item v')

inductive Stat.Like (L : Likeness) : Stat → Stat → Prop
  | assign {ts ts' vs vs' : List Expr} (hts : Forall₂ (Expr.Like L) ts ts') (hvs : Forall₂ (Expr.Like L) vs vs') :
      Stat.Like L (.assign ts vs) (.assign ts' vs')
  | bare {e e' : Expr} (h : e.Like L e') : Stat.Like L (.bare e) (.bare e')
  | loop {t t' : Expr} {b b' : List Stat} (ht : t.Like L t') (hb : Forall₂ (Stat.Like L) b b') :
      Stat.Like L (.loop t b) (.loop t' b')
  | untilLoop {t t' : Expr} {b b' : List Stat} (hb : Forall₂ (Stat.Like L) b b') (ht : t.Like L t') :
      Stat.Like L (.untilLoop b t) (.untilLoop b' t')
  | locals (names : List String) {vs vs' : List Expr} (hvs : Forall₂ (Expr.Like L) vs vs') :
      Stat.Like L (.locals names vs) (.locals names vs')
  | localFunction (name : String) (params : List String) {b b' : List Stat} {line : Nat} (h : L.line line)
      (hb : Forall₂ (Stat.Like L) b b') :
      Stat.Like L (.localFunction name params b line) (.localFunction name params b' line)
  | function (path params : List String) {b b' : List Stat} {line : Nat} (h : L.line line)
      (hb : Forall₂ (Stat.Like L) b b') : Stat.Like L (.function path params b line) (.function path params b' line)
  | method (path : List String) (name : String) (params : List String) {b b' : List Stat}
      (hb : Forall₂ (Stat.Like L) b b') : Stat.Like L (.method path name params b) (.method path name params b')
  | choice {t t' : Expr} {b b' o o' : List Stat} (ht : t.Like L t') (hb : Forall₂ (Stat.Like L) b b')
      (ho : Forall₂ (Stat.Like L) o o') : Stat.Like L (.choice t b o) (.choice t' b' o')
  | count (var : String) {a a' z z' : Expr} {s s' : Option Expr} {b b' : List Stat} (ha : a.Like L a')
      (hz : z.Like L z') (hs : Option.Rel (Expr.Like L) s s') (hb : Forall₂ (Stat.Like L) b b') :
      Stat.Like L (.count var a z s b) (.count var a' z' s' b')
  | iterate (vars : List String) {es es' : List Expr} {b b' : List Stat} (hes : Forall₂ (Expr.Like L) es es')
      (hb : Forall₂ (Stat.Like L) b b') : Stat.Like L (.iterate vars es b) (.iterate vars es' b')
  | block {b b' : List Stat} (hb : Forall₂ (Stat.Like L) b b') : Stat.Like L (.block b) (.block b')
  | goto (label : String) : Stat.Like L (.goto label) (.goto label)
  | label (name : String) : Stat.Like L (.label name) (.label name)
  | leave : Stat.Like L .leave .leave
  | empty : Stat.Like L .empty .empty
  | yield {vs vs' : List Expr} (hvs : Forall₂ (Expr.Like L) vs vs') : Stat.Like L (.yield vs) (.yield vs')

end

abbrev Expr.Hides : Expr → Expr → Prop := Expr.Like .hidden

abbrev Field.Hides : Field → Field → Prop := Field.Like .hidden

variable {L : Likeness}

theorem Expr.Like.line? : ∀ {e e' : Expr}, e.Like L e' → ∀ l ∈ e.line?, L.line l
  | _, _, .name _ h, _, rfl => h
  | _, _, .literal _ h, _, rfl => h
  | _, _, .string _ h, _, rfl => h
  | _, _, .function _ h _, _, rfl => h
  | _, _, .unary _ h _, _, rfl => h
  | _, _, .index hv _, l, hl => hv.line? l hl
  | _, _, .call hc _, l, hl => hc.line? l hl
  | _, _, .invoke _ hr _, l, hl => hr.line? l hl

/-! ### Calls and named functions -/

inductive Site.Like (L : Likeness) : Site → Site → Prop
  | call {c c' : Expr} {args args' : List Expr} (hc : c.Like L c') (hargs : Forall₂ (Expr.Like L) args args') :
      Site.Like L (.call c args) (.call c' args')
  | definition (name : String) {line : Nat} (h : L.line line) : Site.Like L (.definition name line) (.definition name line)

abbrev Site.Hides : Site → Site → Prop := Site.Like .hidden

-- on both trees at once: only a tag has another shape when it is hidden, and it holds no calls
mutual

theorem Expr.Like.sites : ∀ {e e' : Expr}, e.Like L e' → Forall₂ (Site.Like L) e.sites e'.sites
  | _, _, .name _ _ | _, _, .literal _ _ | _, _, .arguments | _, _, .string _ _ => .nil
  | _, _, .tag _ hitem _ => by
    simp only [Expr.sites, fieldsSites, Field.sites, hitem]
    exact .nil
  | _, _, .function _ _ hbody => block_hides hbody
  | _, _, .table h => fields_hides h
  | _, _, .unary _ _ h => h.sites
  | _, _, .binary _ hl hr => List.rel_append hl.sites hr.sites
  | _, _, .index hv hk => List.rel_append hv.sites hk.sites
  | _, _, .call hc hargs => .cons (.call hc hargs) (List.rel_append hc.sites (exprs_hides hargs))
  | _, _, .invoke _ hr hargs => List.rel_append hr.sites (exprs_hides hargs)

theorem exprs_hides : ∀ {es es' : List Expr}, Forall₂ (Expr.Like L) es es' →
    Forall₂ (Site.Like L) (exprsSites es) (exprsSites es')
  | _, _, .nil => .nil
  | _, _, .cons h hs => List.rel_append h.sites (exprs_hides hs)

theorem Field.Like.sites : ∀ {f f' : Field}, f.Like L f' → Forall₂ (Site.Like L) f.sites f'.sites
  | _, _, .keyed hk hv => List.rel_append hk.sites hv.sites
  | _, _, .item hv => hv.sites

theorem fields_hides : ∀ {fs fs' : List Field}, Forall₂ (Field.Like L) fs fs' →
    Forall₂ (Site.Like L) (fieldsSites fs) (fieldsSites fs')
  | _, _, .nil => .nil
  | _, _, .cons h hs => List.rel_append h.sites (fields_hides hs)

theorem Stat.Like.sites : ∀ {s s' : Stat}, s.Like L s' → Forall₂ (Site.Like L) s.sites s'.sites
  | _, _, .assign hts hvs => List.rel_append (exprs_hides hts) (exprs_hides hvs)
  | _, _, .bare h => h.sites
  | _, _, .loop ht hb => List.rel_append ht.sites (block_hides hb)
  | _, _, .untilLoop hb ht => List.rel_append (block_hides hb) ht.sites
  | _, _, .locals _ hvs | _, _, .yield hvs => exprs_hides hvs
  | _, _, .localFunction n _ h hb | _, _, .function [n] _ h hb => .cons (.definition n h) (block_hides hb)
  | _, _, .function [] _ _ hb | _, _, .function (_ :: _ :: _) _ _ hb => block_hides hb
  | _, _, .method _ _ _ hb | _, _, .block hb => block_hides hb
  | _, _, .choice ht hb ho => List.rel_append (List.rel_append ht.sites (block_hides hb)) (block_hides ho)
  | _, _, .count _ ha hz .none hb => List.rel_append (List.rel_append ha.sites hz.sites) (block_hides hb)
  | _, _, .count _ ha hz (.some hs) hb =>
    List.rel_append (List.rel_append (List.rel_append ha.sites hz.sites) hs.sites) (block_hides hb)
  | _, _, .iterate _ hes hb => List.rel_append (exprs_hides hes) (block_hides hb)
  | _, _, .goto _ | _, _, .label _ | _, _, .leave | _, _, .empty => .nil

/-- **The calls and named functions of a script are those of the script with its tags hidden.** -/
theorem block_hides : ∀ {ss ss' : List Stat}, Forall₂ (Stat.Like L) ss ss' →
    Forall₂ (Site.Like L) (blockSites ss) (blockSites ss')
  | _, _, .nil => .nil
  | _, _, .cons h hs => List.rel_append h.sites (block_hides hs)

end

end WatchFace.Lua
