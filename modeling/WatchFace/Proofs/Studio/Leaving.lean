import WatchFace.Proofs.Studio.Limits
import WatchFace.Proofs.Studio.Retaining

/-!
# Fields that are left as they are

A field for numbers shows its value with three decimals and six digits, and what it shows is entered again when the
field is left.
-/

namespace WatchFace

open Catalog Number

variable {x : Field} {v w : Value}

/-! ### Numbers inside of limits -/

namespace Value

theorem quantity?_of_less {a b : Value} {c : Bool} (h : a.less b = .ok c) :
    a.quantity?.isSome = true ↔ b.quantity?.isSome = true := by
  cases a <;> cases b <;> simp_all [less, quantity?, text?]

theorem same_self_of_same {a b : Value} (hb : b.quantity?.isSome = true) (h : a.same b = true) : b.same b = true := by
  obtain ⟨q, hq⟩ := Option.isSome_iff_exists.mp hb
  obtain ⟨p, hp⟩ : ∃ p : Quantity, p.order? q = some .eq := by
    cases a <;> cases b <;> simp_all [same, quantity?, isNone, text?]
    all_goals exact ⟨_, h⟩
  have hself : b.same b = (q.order? q == some .eq) := by cases b <;> simp_all [same, quantity?]
  have hsome := Quantity.isSome_order? p q
  rw [hp, Option.isSome_some, eq_comm, Bool.and_eq_true] at hsome
  rw [hself, Quantity.order?_self_beq, hsome.2]

end Value

namespace Field

theorem quantity?_of_clamp {k : Kind} (hv : v.quantity?.isSome = true) (h : clamp k v = .ok w) :
    w.quantity?.isSome = true := by
  cases k with
  | limits low high step =>
    obtain ⟨b, c, hhigh, hlow, rfl⟩ := exists_of_clamp h
    have hinner : (if b then high else v).quantity?.isSome = true := by
      cases b
      · exact hv
      · exact (Value.quantity?_of_less hhigh).mpr hv
    cases c
    · exact hinner
    · exact (Value.quantity?_of_less hlow).mp hinner
  | _ =>
    cases h
    exact hv

theorem text_present (hsettled : x.settled = true) (hreading : x.kind.reading ≠ .words) (v : Value) :
    (x.present v).1.text = display v := by
  unfold present
  cases hkind : x.kind with
  | limits => simp [hsettled]
  | _ => simp [hkind, Kind.reading] at hreading

theorem quantity?_of_read (hreading : x.kind.reading ≠ .words) (h : x.read v = (true, w)) :
    w.quantity?.isSome = true := by
  rw [read_eq_true_iff] at h
  obtain ⟨u, hconvert, h⟩ := EStateM.exists_of_bind_eq_ok h
  refine quantity?_of_clamp ?_ h
  obtain ⟨hwords, -⟩ | ⟨-, n, rfl⟩ | ⟨-, y, rfl⟩ := convert_cases hconvert
  · exact absurd hwords hreading
  · rfl
  · rfl

end Field

namespace Studio

open EStateM

variable {s : Studio} {f : Nat}

theorem succeeds_emit_iff {c : Nat} {ch : Channel Listener} (hch : s.channels[c]? = some ch) :
    (emit c v).succeeds s = true ↔ v.Carries := by
  refine ⟨fun h => carries_of_run_emit (run_of_succeeds h), fun hv => ?_⟩
  obtain ⟨t, hrun⟩ : ∃ t, (emit c v).run s = .ok () t := exists_run_emit_next (.upTo (depth - 1)) hch hv
  rw [EStateM.succeeds, hrun]

section

variable (hx : s.fields[f]? = some x) (hkept : x.Kept) (htame : s.Tame x.channel)
  (hcmds : OnlyChanges s.history.commands)

include hx hkept htame hcmds

theorem exists_value_enter (v : Value) : ∃ w, ((enter reactions f v true).after s).values[f]? = some w ∧
      (w = x.value ∧ (∀ said, x.spoken? v = some said → (emit x.channel said).succeeds s = false) ∨
        x.read v = (true, w) ∧ ∃ said, x.spoken? v = some said ∧ (emit x.channel said).succeeds s = true) := by
  have hvalue := getElem?_values hx
  obtain ⟨hnone, hcalm, -⟩ | ⟨said, hsaid, hcalm, -, ⟨heq, hfails⟩ | ⟨r, hr, -, -, hset, -, -, hs⟩⟩ :=
    commit_cases hx hkept htame hcmds v
  · refine ⟨x.value, by rw [values_of_calm hcalm, hvalue], .inl ⟨rfl, fun said hsaid => ?_⟩⟩
    cases hnone.symm.trans hsaid
  · refine ⟨x.value, by rw [heq, values_of_calm hcalm, hvalue], .inl ⟨rfl, fun said' hsaid' => ?_⟩⟩
    obtain rfl := Option.some.inj (hsaid.symm.trans hsaid')
    exact hfails
  · refine ⟨r, ?_, .inr ⟨hr, said, hsaid, hs⟩⟩
    rw [hset, values_of_calm hcalm]
    exact List.getElem?_set_self (List.getElem?_eq_some_iff.mp hvalue).1

theorem exists_of_enter (hread : x.read v = (true, w)) (hsucceeds : (enter reactions f v true).succeeds s = true) :
    let t := (enter reactions f v true).after s
    ∃ y, t.fields[f]? = some y ∧ y.shell = x.shell ∧ y.value = w ∧ (x.kind.reading ≠ .words → y.text = Field.display w) ∧
      t.Tame y.channel ∧ OnlyChanges t.history.commands ∧ ∃ ch, t.channels[y.channel]? = some ch := by
  obtain ⟨-, -, -, hrefused | hfails⟩ | ⟨said, -, hcalm, hacts, ⟨-, hfails⟩ |
    ⟨new, hnew, hkin, -, -, hhistory, ⟨z, hz, hy⟩, hs⟩⟩ := commit_cases hx hkept htame hcmds v
  · cases hrefused.symm.trans hread
  · cases hfails.symm.trans hsucceeds
  · cases hfails.symm.trans (hacts.symm.trans hsucceeds)
  obtain rfl : new = w := congrArg Prod.snd (hnew.symm.trans hread)
  have hzkept := hkept.of_shell hz
  have hshell := (z.shell_present new hzkept.choice).trans hz
  have hchannel : (z.present new).1.channel = x.channel := by simpa using congrArg Field.channel hshell
  have hkin' := hcalm.kin.trans hkin
  -- the channel has carried the value, so it is there
  obtain ⟨ch, s', hpart, -⟩ := exists_of_run_bind_ok (run_of_succeeds hs)
  obtain ⟨ch', hch', -⟩ := getElem?_of_map_eq hkin'.listeners.symm (eq_of_run_part hpart).1
  refine ⟨_, hy, hshell, hzkept.value_present new,
    fun hreading => Field.text_present hzkept.settled (Field.kind_of_shell hz ▸ hreading) new, ?_, ?_, ch', ?_⟩
  · rw [hchannel]
    exact hkin'.tame htame
  · rw [hhistory, hcalm.history]
    exact onlyChanges_push hcmds f new x.value
  · rw [hchannel]
    exact hch'

end

end Studio

end WatchFace
