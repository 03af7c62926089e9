import WatchFace.Proofs.Studio.Names

/-!
# Naming items

An item that gets another name than it was asked for carries it, and an item that takes its place in the stacking order
from the same channel carries what it hears once more, so it takes an argument that this ends.
-/

namespace WatchFace

open EStateM List

variable {s t : Studio} {c i n : Nat} {l : Studio.Listener} {item : Studio.Item} {name : String}
  {ch : Channel Studio.Listener} {N : Nat → Prop}

namespace Studio

/-! ### Items at their channels -/

def Listener.Seated (s : Studio) (c : Nat) : Listener → Prop
  | .level i => ∃ item, s.items[i]? = some item ∧ item.levels = c
  | .title i => ∃ item, s.items[i]? = some item ∧ item.names = c
  | _ => False

/-- Everyone who listens is quiet or an item at its own channel, no two items take their names from one channel, and
    the names are in order. -/
structure Ready (N : Nat → Prop) (s : Studio) : Prop where
  seats : ∀ c l, Listener.On s c l → l.Quiet s ∨ l.Seated s c
  ports : ∀ item ∈ s.items, N item.names
  distinct : (s.items.map Item.names).Nodup
  neat : s.Neat N

theorem Listener.Seated.joined (h : l.Seated s c) : l.Joined s c := by
  cases l
  case level i | title i =>
    obtain ⟨item, hi, rfl⟩ := h
    intro item' hi'
    rw [hi] at hi'
    rw [Option.some.inj hi']
  all_goals exact h

theorem Listener.Seated.of_ports (h : t.items.map Item.ports = s.items.map Item.ports) (hl : l.Seated s c) :
    l.Seated t c := by
  cases l
  case level i =>
    obtain ⟨item, hi, rfl⟩ := hl
    obtain ⟨item', hi', hports⟩ := getElem?_of_map_eq h.symm hi
    exact ⟨item', hi', (congrArg Prod.fst hports).symm⟩
  case title i =>
    obtain ⟨item, hi, rfl⟩ := hl
    obtain ⟨item', hi', hports⟩ := getElem?_of_map_eq h.symm hi
    exact ⟨item', hi', (congrArg Prod.snd hports).symm⟩
  all_goals exact hl

theorem names_of_ports (h : t.items.map Item.ports = s.items.map Item.ports) :
    t.items.map Item.names = s.items.map Item.names := by
  have hnames := congrArg (List.map Prod.snd) h
  rwa [map_map, map_map] at hnames

section

variable {N : Nat → Prop} {s : Studio} (h : s.Ready N)

include h

theorem Ready.tame (c : Nat) : s.Tame c := fun l hl => (h.seats c l hl).imp_right (·.joined)

theorem Ready.namedBy (c : Nat) : s.NamedBy N c := by
  intro i hi
  obtain hquiet | ⟨item, hitem, rfl⟩ := h.seats c _ hi
  · exact absurd hquiet id
  · exact h.ports item (mem_of_getElem? hitem)

theorem Ready.of_kin (hkin : Kin s t) (hneat : t.Neat N) : t.Ready N := by
  refine ⟨fun c l hl => ?_, fun item hitem => ?_, ?_, hneat⟩
  · exact (h.seats c l (hkin.symm.on hl)).imp hkin.quiet (·.of_ports hkin.ports)
  · have hmem : item.names ∈ t.items.map Item.names := mem_map_of_mem hitem
    rw [names_of_ports hkin.ports] at hmem
    obtain ⟨item', hitem', hnames⟩ := mem_map.mp hmem
    exact hnames ▸ h.ports item' hitem'
  · rw [names_of_ports hkin.ports]
    exact h.distinct

theorem Ready.emit (n : Nat) {v : Value} (hv : N c → ∃ name, v = .text name) :
    (((Reactions.upTo n).emit c v).after s).Ready N :=
  h.of_kin ((gentle_upTo n).calm c v s (h.tame c)).kin (neat_upTo N n c v s (h.tame c) (h.namedBy c) hv h.neat)

end

/-! ### Carrying a name comes to an end -/

def followers (s : Studio) (c : Nat) : Nat := s.items.countP fun x => x.levels == c

/-- How many of them have another place than the one that the text stands for. -/
def lag (s : Studio) (c : Nat) (name : String) : Nat :=
  s.items.countP fun x => x.levels == c && !(Value.text name == x.level)

def Settled (s : Studio) (c : Nat) (name : String) : Prop :=
  ∀ (i : Nat) (item : Item), s.items[i]? = some item → item.names = c → item.name = .text (s.newName item name)

/-- Carrying the name nests less than `n` deep: each item of the stacking order goes one level down at most, and all
    once more if an item gets another name. -/
def Shallow (n : Nat) (s : Studio) (c : Nat) (name : String) : Prop :=
  s.lag c name < n ∧ (s.Settled c name ∨ s.lag c name + s.followers c + 1 < n)

theorem lag_le_followers (s : Studio) (c : Nat) (name : String) : s.lag c name ≤ s.followers c :=
  countP_mono_left fun _ _ h => (Bool.and_eq_true_iff.mp h).1

theorem Kin.followers_eq (h : Kin s t) (c : Nat) : t.followers c = s.followers c := by
  have hcount := congrArg (List.countP fun p => p.1 == c) h.ports
  rwa [countP_map, countP_map] at hcount

def Item.rank (x : Item) : Nat × Value := (x.levels, x.level)

theorem lag_congr (h : t.items.map Item.rank = s.items.map Item.rank) (c : Nat) (name : String) :
    t.lag c name = s.lag c name := by
  have hcount := congrArg (List.countP fun p => p.1 == c && !(Value.text name == p.2)) h
  rwa [countP_map, countP_map] at hcount

theorem lag_setLevel (hi : s.items[i]? = some item) (hlevel : (Value.text name == item.level) = false) :
    (s.withLevel i item (.text name)).lag item.levels name + 1 = s.lag item.levels name := by
  obtain ⟨hlt, rfl⟩ := List.getElem?_eq_some_iff.mp hi
  have hself : (Value.text name == Value.text name) = true := Value.text_beq_iff.mpr rfl
  have hcounted : 0 < s.lag s.items[i].levels name := by
    refine countP_pos_iff.mpr ⟨s.items[i], getElem_mem hlt, ?_⟩
    simp [hlevel]
  rw [lag, withLevel, countP_set hlt]
  simp only [hlevel, hself, beq_self_eq_true, Bool.not_false, Bool.not_true, Bool.and_false,
    Bool.and_true, if_true, Bool.false_eq_true, if_false]
  rw [lag] at hcounted ⊢
  omega

section

variable {N : Nat → Prop} {s t : Studio} (hs : s.Ready N) (ht : t.Ready N) (hkin : Kin s t) {c : Nat}
  {name : String}

include hs ht hkin

theorem Settled.of_names (h : s.Settled c name) (hnames : t.itemNames = s.itemNames) : t.Settled c name := by
  intro i item hi hc
  obtain ⟨old, hold, -, hport⟩ := hkin.exists_item hi
  have hname := getElem?_itemNames hi
  rw [hnames, getElem?_itemNames hold] at hname
  rw [hs.neat.tidy.newName_congr hold ht.neat.tidy hi (by rw [hnames]), ← h i old hold (hport ▸ hc)]
  exact (Option.some.inj hname).symm

theorem Shallow.of_names (h : s.Shallow n c name) (hnames : t.itemNames = s.itemNames)
    (hranks : t.items.map Item.rank = s.items.map Item.rank) : t.Shallow n c name := by
  rw [Shallow, lag_congr hranks, hkin.followers_eq c]
  exact ⟨h.1, h.2.imp_left fun hsettled => hsettled.of_names hs ht hkin hnames⟩

end

theorem run_hear_of_quiet (r r' : Reactions) (hl : l.Quiet s) (o : Option Value) :
    (hear r' l o).run s = (hear r l o).run s := by
  cases l <;> cases o
  case field.some f v =>
    show (receive r' f v false).run s = (receive r f v false).run s
    cases hx : s.fields[f]? with
    | none =>
      have hrun : ∀ r, (receive r f v false).run s = .error .missing s := fun r =>
        run_bind_error (run_part_none hx)
      rw [hrun, hrun]
    | some x => rw [run_receive hx (run_setValue r hx (hl x hx) v), run_receive hx (run_setValue r' hx (hl x hx) v)]
  case level.some | title.some => exact absurd hl id
  all_goals rfl

theorem hear_none (r r' : Reactions) (l : Listener) : hear r' l none = hear r l none := by
  cases l <;> rfl

/-- From a studio to another all stays ready and shallow, and settled items keep their names. -/
structure Onward (N : Nat → Prop) (n c : Nat) (name : String) (s t : Studio) : Prop where
  ready : t.Ready N
  kin : Kin s t
  shallow : t.Shallow n c name
  names : s.Settled c name → t.itemNames = s.itemNames

/-- Reactions that come to the same where carrying a name nests less than `n` deep. -/
def Reactions.Alike (N : Nat → Prop) (n c : Nat) (r r' : Reactions) : Prop :=
  ∀ (s : Studio) (name : String), s.Ready N → s.Shallow n c name →
    (r'.emit c (.text name)).run s = (r.emit c (.text name)).run s ∧
      Onward N n c name s ((r.emit c (.text name)).after s)

theorem Shallow.succ (h : s.Shallow n c name) : s.Shallow (n + 1) c name :=
  ⟨Nat.lt_succ_of_lt h.1, h.2.imp_right Nat.lt_succ_of_lt⟩

section

variable {N : Nat → Prop} {s : Studio} (hs : s.Ready N) {n c : Nat} {name : String}

include hs

theorem Onward.refl (h : s.Shallow n c name) : Onward N n c name s s :=
  ⟨hs, Kin.refl s, h, fun _ => rfl⟩

theorem Onward.trans {u : Studio} (hst : Onward N n c name s t) (htu : Onward N n c name t u) :
    Onward N n c name s u := by
  refine ⟨htu.ready, hst.kin.trans htu.kin, htu.shallow, fun h => ?_⟩
  rw [htu.names (h.of_names hs hst.ready hst.kin (hst.names h)), hst.names h]

theorem Onward.of_names (h : s.Shallow n c name) (ht : t.Ready N) (hkin : Kin s t)
    (hnames : t.itemNames = s.itemNames) (hranks : t.items.map Item.rank = s.items.map Item.rank) :
    Onward N n c name s t :=
  ⟨ht, hkin, h.of_names hs ht hkin hnames hranks, fun _ => hnames⟩

theorem Ready.eq_of_names {j : Nat} {x y : Item} (hi : s.items[i]? = some x) (hj : s.items[j]? = some y)
    (h : y.names = x.names) : j = i := by
  obtain ⟨hlti, rfl⟩ := List.getElem?_eq_some_iff.mp hi
  obtain ⟨hltj, rfl⟩ := List.getElem?_eq_some_iff.mp hj
  have hget : (s.items.map Item.names)[j]? = (s.items.map Item.names)[i]? := by
    simp [hlti, hltj, h]
  exact (getElem?_inj (by simpa using hltj) hs.distinct).mp hget

theorem onward_hear_of_quiet (r : Reactions) (hd : s.Shallow n c name) (hl : l.Quiet s) (o : Option Value) :
    Onward N n c name s ((hear r l o).after s) := by
  obtain ⟨hcalm, hchannels, hitems, hexplorer⟩ := calm_hear r hl o
  have hnames : ((hear r l o).after s).itemNames = s.itemNames := congrArg (List.map Item.name) hitems
  refine Onward.of_names hs hd (hs.of_kin hcalm.kin ?_) hcalm.kin hnames (by rw [hitems])
  exact hs.neat.of_eq hnames (by rw [hexplorer]) hchannels

theorem onward_hear_none (r : Reactions) (hd : s.Shallow n c name) (hl : l.On s c) :
    Onward N n c name s ((hear r l none).after s) := by
  obtain hquiet | hseated := hs.seats c l hl
  · exact onward_hear_of_quiet hs r hd hquiet none
  · -- an item does nothing then
    cases l
    case level | title => exact Onward.refl hs hd
    all_goals exact absurd hseated id

variable {r r' : Reactions} (halike : r.Alike N n c r') (hd : s.Shallow (n + 1) c name)

include halike hd

/-- An item that takes a place and tells the others, one level deeper. -/
theorem onward_setLevel (hi : s.items[i]? = some item) (hc : item.levels = c) :
    (setLevel r' i (.text name)).run s = (setLevel r i (.text name)).run s ∧
      Onward N (n + 1) c name s ((setLevel r i (.text name)).after s) := by
  subst hc
  have hrun := run_setLevel r hi (.text name)
  rw [run_setLevel r' hi]
  by_cases hlevel : (Value.text name == item.level) = true
  · rw [if_pos hlevel] at hrun ⊢
    rw [hrun, after_of_ok hrun]
    exact ⟨rfl, Onward.refl hs hd⟩
  · rw [if_neg hlevel] at hrun ⊢
    rw [hrun, after_congr hrun]
    let t := s.withLevel i item (.text name)
    have hcalm : Calm s t := ⟨rfl, rfl, rfl, map_set_of_eq hi rfl, rfl⟩
    have hnames : t.itemNames = s.itemNames := map_set_of_eq hi rfl
    have ht : t.Ready N := hs.of_kin hcalm.kin (hs.neat.of_eq hnames rfl rfl)
    have hlag : t.lag item.levels name + 1 = s.lag item.levels name :=
      lag_setLevel hi (eq_false_of_ne_true hlevel)
    have hshallow : t.Shallow n item.levels name := by
      have hlt := hd.1
      refine ⟨by omega, hd.2.imp (fun h => h.of_names hs ht hcalm.kin hnames) fun h => ?_⟩
      rw [hcalm.kin.followers_eq]
      omega
    obtain ⟨hsame, honward⟩ := halike t name ht hshallow
    refine ⟨hsame, honward.ready, hcalm.kin.trans honward.kin, honward.shallow.succ, fun h => ?_⟩
    rw [honward.names (h.of_names hs ht hcalm.kin hnames), hnames]

/-- An item that gets another name carries it, one level deeper; after that it has what it gets. -/
theorem onward_naming (hi : s.items[i]? = some item) (hc : item.names = c)
    (hnew : item.name ≠ .text (s.newName item name)) :
    let t := s.naming i item name
    let new := Value.text (s.newName item name)
    (r'.emit c new).run t = (r.emit c new).run t ∧ Onward N (n + 1) c name s ((r.emit c new).after t) := by
  intro t new
  have hroom : s.lag c name + s.followers c + 1 < n + 1 :=
    hd.2.resolve_left fun h => hnew (h i item hi hc)
  have hcalm : Calm s t := ⟨rfl, rfl, rfl, map_set_of_eq hi rfl, rfl⟩
  have ht : t.Ready N := hs.of_kin hcalm.kin ⟨hs.neat.tidy.naming hi name, hs.neat.hears⟩
  have hti : t.items[i]? = some { item with shown := new, name := new } := getElem?_set_some hi
  have hsettled : t.Settled c (s.newName item name) := by
    intro j x hj hx
    obtain rfl := ht.eq_of_names hti hj (hx.trans hc.symm)
    cases hti.symm.trans hj
    rw [ht.neat.tidy.newName_self hti rfl]
  have hshallow : t.Shallow n c (s.newName item name) := by
    refine ⟨Nat.lt_of_le_of_lt (lag_le_followers t c _) ?_, .inl hsettled⟩
    rw [hcalm.kin.followers_eq]
    omega
  obtain ⟨hsame, honward⟩ := halike t (s.newName item name) ht hshallow
  refine ⟨hsame, ?_⟩
  generalize (r.emit c new).after t = u at honward
  have hkin := hcalm.kin.trans honward.kin
  have hnames : u.itemNames = s.itemNames.set i new := by
    rw [honward.names hsettled]
    exact map_set
  refine ⟨honward.ready, hkin, ⟨?_, .inl fun j x hj hx => ?_⟩, fun h => absurd (h i item hi hc) hnew⟩
  · have hle := lag_le_followers u c name
    rw [hkin.followers_eq] at hle
    omega
  · obtain ⟨old, hold, -, hport⟩ := hkin.exists_item hj
    obtain rfl := hs.eq_of_names hi hold ((hport.symm.trans hx).trans hc.symm)
    have hothers : u.itemNames.eraseIdx j = s.itemNames.eraseIdx j := by
      rw [hnames, eraseIdx_set_eq]
    have hname := getElem?_itemNames hj
    rw [hnames, getElem?_set_self (lt_of_getElem? (getElem?_itemNames hi))] at hname
    rw [hs.neat.tidy.newName_congr hi honward.ready.neat.tidy hj hothers]
    exact (Option.some.inj hname).symm

theorem onward_rename (hi : s.items[i]? = some item) (hc : item.names = c) :
    (rename r' i (.text name)).run s = (rename r i (.text name)).run s ∧
      Onward N (n + 1) c name s ((rename r i (.text name)).after s) := by
  by_cases hname : item.name = .text name
  · rw [run_rename_same hi r hname, run_rename_same hi r' hname, after_of_ok (run_rename_same hi r hname)]
    exact ⟨rfl, Onward.refl hs hd⟩
  · by_cases hnew : item.name = .text (s.newName item name)
    · have hrun := fun r => run_rename_listing hi r hname hnew
      rw [hrun, hrun, after_of_ok (hrun r)]
      have hcalm : Calm s (s.listing i item name) := ⟨rfl, rfl, rfl, map_set_of_eq hi rfl, rfl⟩
      have ht : (s.listing i item name).Ready N :=
        hs.of_kin hcalm.kin ⟨hs.neat.tidy.listing hi hnew, hs.neat.hears⟩
      exact ⟨rfl, Onward.of_names hs hd ht hcalm.kin (map_set_of_eq hi rfl) (map_set_of_eq hi rfl)⟩
    · have hrun := fun r => run_rename_naming hi r hname hnew
      obtain ⟨hsame, honward⟩ := onward_naming hs halike hd hi hc hnew
      subst hc
      rw [hrun, hrun, after_of_ok (hrun r), EStateM.after, hsame, ← EStateM.after]
      exact ⟨rfl, honward⟩

theorem onward_hear (hl : l.On s c) : (hear r' l (some (.text name))).run s = (hear r l (some (.text name))).run s ∧
      Onward N (n + 1) c name s ((hear r l (some (.text name))).after s) := by
  obtain hquiet | hseated := hs.seats c l hl
  · exact ⟨run_hear_of_quiet r r' hquiet _, onward_hear_of_quiet hs r hd hquiet _⟩
  · cases l
    case level i =>
      obtain ⟨item, hi, hc⟩ := hseated
      exact onward_setLevel hs halike hd hi hc
    case title i =>
      obtain ⟨item, hi, hc⟩ := hseated
      exact onward_rename hs halike hd hi hc
    all_goals exact absurd hseated id

end

/-- What is kept while listeners hear the name in turn. -/
def Carrying (N : Nat → Prop) (ls : List Listener) (n c : Nat) (name : String) (s t : Studio) : Prop :=
  s.Ready N → (∀ l ∈ ls, l.On s c) → s.Shallow n c name → Onward N n c name s t

instance (N : Nat → Prop) (ls : List Listener) (n c : Nat) (name : String) :
    IsPreorder Studio (Carrying N ls n c name) where
  refl _ hs _ hd := Onward.refl hs hd
  trans _ _ _ hst htu hs hls hd := by
    have h := hst hs hls hd
    exact h.trans hs (htu h.ready (fun l hl => h.kin.on (hls l hl)) h.shallow)

section

variable {N : Nat → Prop} {n c : Nat} {r r' : Reactions} (halike : r.Alike N n c r')

include halike

theorem onward_announce (hs : s.Ready N) {ls : List Listener} (hls : ∀ l ∈ ls, l.On s c)
    (hd : s.Shallow (n + 1) c name) :
    (announce (hear r') (.text name) ls).run s = (announce (hear r) (.text name) ls).run s ∧
      Onward N (n + 1) c name s ((announce (hear r) (.text name) ls).after s) := by
  have hsome : ∀ l ∈ ls, Within (Carrying N ls (n + 1) c name) (hear r l (some (.text name))) :=
    fun l hl t ht hon hd => (onward_hear ht halike hd (hon l hl)).2
  have hnone : ∀ l ∈ ls, Within (Carrying N ls (n + 1) c name) (hear r l none) :=
    fun l hl t ht hon hd => onward_hear_none ht r hd (hon l hl)
  refine ⟨?_, within_announce hsome hnone s hs hls hd⟩
  let P : Studio → Prop := fun t => t.Ready N ∧ (∀ l ∈ ls, l.On t c) ∧ t.Shallow (n + 1) c name
  have hsame : ∀ l ∈ ls, ∀ t, P t → (attempt (hear r') (.text name) l).run t =
      (attempt (hear r) (.text name) l).run t := by
    rintro l hl t ⟨ht, hon, hd⟩
    exact run_attempt_congr (onward_hear ht halike hd (hon l hl)).1 (hear_none r r' l)
  have hkeep : ∀ l ∈ ls, Within (Upholds P) (attempt (hear r) (.text name) l) := by
    rintro l hl t ⟨ht, hon, hd⟩
    have honward := within_attempt (hsome l hl) (hnone l hl) t ht hon hd
    exact ⟨honward.ready, fun k hk => honward.kin.on (hon k hk), honward.shallow⟩
  exact run_announce_congr (P := P) hsame hkeep ⟨hs, hls, hd⟩

theorem Reactions.Alike.next : r.next.Alike N (n + 1) c r'.next := by
  intro s name hs hd
  cases hch : s.channels[c]? with
  | none =>
    have hrun : ∀ r : Reactions, (r.next.emit c (.text name)).run s = .error .missing s := fun r =>
      run_bind_error (run_part_none hch)
    rw [hrun, hrun, after_of_error (hrun r)]
    exact ⟨rfl, Onward.refl hs hd⟩
  | some ch =>
    have hkin : Kin s (s.remember c ch (.text name)) := (calm_remember hch _).kin
    have ht : (s.remember c ch (.text name)).Ready N := by
      exact hs.of_kin hkin (hs.neat.remember hch fun _ => ⟨name, rfl⟩)
    have hfirst : Onward N (n + 1) c name s (s.remember c ch (.text name)) :=
      Onward.of_names hs hd ht hkin rfl rfl
    have hls : ∀ l ∈ ch.texts, l.On (s.remember c ch (.text name)) c := by
      intro l hl
      refine hkin.on ⟨ch, hch, ?_⟩
      simp [Channel.listeners, hl]
    obtain ⟨hsame, hannounce⟩ := onward_announce halike ht hls hfirst.shallow
    rw [after_congr (run_emit_heard r hch rfl), run_emit_heard r hch rfl, run_emit_heard r' hch rfl]
    exact ⟨hsame, hfirst.trans hs hannounce⟩

end

theorem alike_upTo (N : Nat → Prop) (c n m : Nat) : (Reactions.upTo n).Alike N n c (Reactions.upTo (n + m)) := by
  induction n with
  | zero => exact fun s name _ hd => absurd hd.1 (Nat.not_lt_zero _)
  | succ n ih =>
    rw [Nat.succ_add]
    exact ih.next

/-- Carrying a value on the channel comes to an end less than `n` levels deep. -/
def Ends (s : Studio) (n c : Nat) (v : Value) : Prop :=
  ∃ t, ∀ m, n ≤ m → ((Reactions.upTo m).emit c v).run s = .ok () t

theorem Ready.ends (hs : s.Ready N) (hc : c < s.channels.length) (name : String) :
    s.Ends (2 * s.followers c + 2) c (.text name) := by
  have hd : s.Shallow (2 * s.followers c + 2) c name := by
    have hle := lag_le_followers s c name
    exact ⟨by omega, .inr (by omega)⟩
  have hch := getElem?_eq_getElem hc
  obtain ⟨t, ht⟩ := exists_run_announce (hear (.upTo (2 * s.followers c + 1))) (.text name)
    s.channels[c].texts (s.remember c s.channels[c] (.text name))
  refine ⟨t, fun m hm => ?_⟩
  obtain ⟨k, rfl⟩ := Nat.exists_eq_add_of_le hm
  rw [(alike_upTo N c _ k s name hs hd).1]
  exact (run_emit_heard _ hch rfl).trans ht

/-! ### Joining a channel -/

section

variable {N : Nat → Prop} {s : Studio} (h : s.Ready N) {c : Nat} {l : Listener} (hl : l.Seated s c)

include h hl

theorem Ready.join (hch : s.channels[c]? = some ch) : (s.join c ch l).Ready N := by
  refine ⟨fun d k hk => ?_, h.ports, h.distinct, h.neat.tidy.of_names rfl rfl, fun d hd v hv => ?_⟩
  · obtain hk | ⟨rfl, rfl⟩ := on_join hch hk
    · exact h.seats d k hk
    · exact .inr hl
  · rw [last?_join hch] at hv
    exact h.neat.hears d hd v hv

theorem Ready.connect : ((connect c l).after s).Ready N ∧
    ((connect c l).after s).items.map Item.ports = s.items.map Item.ports := by
  cases hch : s.channels[c]? with
  | none =>
    rw [after_connect_none hch]
    exact ⟨h, rfl⟩
  | some ch =>
    have hjoin := h.join hl hch
    rw [after_connect hch]
    split
    case isTrue => exact ⟨hjoin, rfl⟩
    case isFalse hlast =>
      have htext : N c → ∃ name, ch.last = .text name := by
        intro hc
        have hheard := h.neat.hears c hc ch.last (by rw [last?, hch]; rfl)
        refine hheard.resolve_left fun hnone => hlast ?_
        rw [hnone]
        rfl
      exact ⟨hjoin.emit _ htext, ((gentle_upTo _).calm c _ _ (hjoin.tame c)).ports⟩

end

def Holding (N : Nat → Prop) (t u : Studio) : Prop :=
  u.Ready N ∧ u.items.map Item.ports = t.items.map Item.ports

theorem within_connect (hl : l.Seated t c) : Within (Upholds (Holding N t)) (connect c l) := by
  rintro u ⟨hu, hports⟩
  obtain ⟨hready, hkept⟩ := hu.connect (hl.of_ports hports)
  exact ⟨hready, hkept.trans hports⟩

theorem within_changeExplorer {g : Explorer → Explorer} (hg : ∀ e, (g e).names = e.names) :
    Within (Upholds (Holding N t)) (changeExplorer g) := by
  rintro u ⟨hu, hports⟩
  exact ⟨hu.of_kin ⟨rfl, rfl, rfl, rfl⟩ (hu.neat.of_eq rfl (hg u.explorer) rfl), hports⟩

/-! ### Adding items and carrying names -/

/-- Adding an item, or carrying a name on a channel. -/
inductive Naming where
  | add (layer : String) (channels : List (String × Nat)) (id : Value)
  | say (channel : Nat) (name : String)

namespace Naming

def after (s : Studio) : Naming → Studio
  | .add layer channels id => (addItem layer channels id).after s
  | .say c name => (emit c (.text name)).after s

def port? : Naming → Option Nat
  | .add _ channels _ => channels.lookup "Name"
  | .say _ _ => none

def ports (es : List Naming) : List Nat := es.filterMap port?

end Naming

def explore (s : Studio) (es : List Naming) : Studio := es.foldl Naming.after s

section

variable {N : Nat → Prop} {s : Studio} (h : s.Ready N)

include h

theorem Ready.append (hname : item.name = .none) (hN : N item.names) (hnew : item.names ∉ s.items.map Item.names) :
    ({ s with items := s.items ++ [item] } : Studio).Ready N := by
  have hnames : ({ s with items := s.items ++ [item] } : Studio).itemNames = s.itemNames ++ [.none] := by
    rw [itemNames, map_append, ← hname]
    rfl
  have hold : ∀ {i : Nat} {x : Item}, s.items[i]? = some x → (s.items ++ [item])[i]? = some x := by
    intro i x hi
    rwa [getElem?_append_left (lt_of_getElem? hi)]
  refine ⟨fun c l hl => (h.seats c l hl).imp id fun hseated => ?_, fun x hx => ?_, ?_, h.neat.tidy.of_append hnames rfl,
    h.neat.hears⟩
  · cases l
    case level i | title i =>
      obtain ⟨x, hx, hc⟩ := hseated
      exact ⟨x, hold hx, hc⟩
    all_goals exact hseated
  · obtain hx | hx := mem_append.mp hx
    · exact h.ports x hx
    · exact mem_singleton.mp hx ▸ hN
  · rw [map_append]
    exact nodup_append.mpr ⟨h.distinct, nodup_singleton _, by grind⟩

theorem Ready.addItem (layer : String) (channels : List (String × Nat)) (id : Value)
    (hN : ∀ c ∈ channels.lookup "Name", N c)
    (hnew : ∀ c ∈ channels.lookup "Name", c ∉ s.items.map Item.names) :
    ((addItem layer channels id).after s).Ready N ∧
      (((addItem layer channels id).after s).items.map Item.names).Sublist
        (s.items.map Item.names ++ (channels.lookup "Name").toList) := by
  cases hnames : channels.lookup "Name" with
  | none =>
    rw [Studio.addItem, hnames]
    exact ⟨h, sublist_append_left _ _⟩
  | some names =>
    cases hlevels : channels.lookup "Layer" with
    | none =>
      rw [Studio.addItem, hnames, hlevels]
      exact ⟨h, sublist_append_left _ _⟩
    | some levels =>
      let item : Item := { id := id.shown, layer := layer, levels := levels, names := names }
      let t := s.withItem item
      have ht : t.Ready N := h.append rfl (hN names hnames) (hnew names hnames)
      have hitem : t.items[s.items.length]? = some item := getElem?_withItem s item
      rw [after_congr (run_addItem hnames hlevels layer id s)]
      have hlevel : (Listener.level s.items.length).Seated t levels := ⟨item, hitem, rfl⟩
      have htitle : (Listener.title s.items.length).Seated t names := ⟨item, hitem, rfl⟩
      have hholding : ∀ u, Holding N t u → u.Ready N ∧
          (u.items.map Item.names).Sublist (s.items.map Item.names ++ [names]) := by
        rintro u ⟨hu, hports⟩
        rw [names_of_ports hports]
        exact ⟨hu, map_append ▸ List.Sublist.refl _⟩
      refine hholding _ (((within_connect hlevel).bind fun _ => (within_connect htitle).bind fun _ =>
        (within_changeExplorer ?_).bind fun _ => within_pure _) t ⟨ht, rfl⟩)
      exact fun _ => rfl

theorem Ready.after (e : Naming) (hN : ∀ c ∈ e.port?, N c)
    (hnew : ∀ c ∈ e.port?, c ∉ s.items.map Item.names) : (e.after s).Ready N ∧
      ((e.after s).items.map Item.names).Sublist (s.items.map Item.names ++ e.port?.toList) := by
  cases e with
  | add layer channels id => exact h.addItem layer channels id hN hnew
  | say c name =>
    refine ⟨h.emit depth fun _ => ⟨name, rfl⟩, ?_⟩
    have hcalm := (gentle_upTo depth).calm c (.text name) s (h.tame c)
    show ((((Reactions.upTo depth).emit c (.text name)).after s).items.map Item.names).Sublist _
    rw [names_of_ports hcalm.ports]
    exact sublist_append_left _ _

end

theorem Ready.explore (h : s.Ready N) {es : List Naming} (hN : ∀ c ∈ Naming.ports es, N c)
    (hports : (s.items.map Item.names ++ Naming.ports es).Nodup) :
    (s.explore es).Ready N := by
  induction es generalizing s with
  | nil => exact h
  | cons e es ih =>
    have hcons : Naming.ports (e :: es) = e.port?.toList ++ Naming.ports es := by
      rw [Naming.ports, filterMap_cons]
      cases e.port? <;> rfl
    rw [hcons] at hN
    rw [hcons, ← append_assoc] at hports
    have hnew : ∀ c ∈ e.port?, c ∉ s.items.map Item.names := by
      intro c hc hmem
      have hdisjoint := (nodup_append.mp (nodup_append.mp hports).1).2.2
      exact hdisjoint c hmem c (Option.mem_toList.mpr hc) rfl
    have hfirst : ∀ c ∈ e.port?, N c := fun c hc =>
      hN c (mem_append_left _ (Option.mem_toList.mpr hc))
    obtain ⟨hready, hsub⟩ := h.after e hfirst hnew
    exact ih hready (fun c hc => hN c (mem_append_right _ hc))
      (hports.sublist (hsub.append_right _))

structure Vacant (s : Studio) : Prop where
  items : s.items = []
  names : s.explorer.names = []
  quiet : ∀ c l, Listener.On s c l → l.Quiet s

theorem Vacant.ready (h : s.Vacant) (hheard : s.Hears N) : s.Ready N := by
  have hnames : s.itemNames = [] := by rw [itemNames, h.items]; rfl
  have htitles : s.titles = [] := by rw [titles, hnames]; rfl
  refine ⟨fun c l hl => .inl (h.quiet c l hl), ?_, ?_, ⟨?_, ?_, [], ?_, ?_⟩, hheard⟩
  · simp [h.items]
  · simp [h.items]
  · simp [hnames]
  · simp [htitles]
  · rw [h.names]
    rfl
  · rw [htitles]

/-- **Names stay unique**, whatever items are added and whatever names are carried, as long as no two items take their
    names from the same channel. Carrying a name comes to an end, and nests no deeper than the number of items allows
    that take their place from the same channel. -/
theorem names_explore {s : Studio} (hs : s.Vacant) (es : List Naming) (hports : (Naming.ports es).Nodup)
    (hheard : s.Hears (· ∈ Naming.ports es)) :
    let t := s.explore es
    let names := t.itemNames.filter (!·.isNone)
    names.Nodup ∧ t.explorer.names.Perm names ∧
      ∀ c < t.channels.length, ∀ name, t.Ends (2 * t.followers c + 2) c (.text name) := by
  intro t names
  have ht : t.Ready (· ∈ Naming.ports es) := by
    refine (hs.ready hheard).explore (fun _ => id) ?_
    rwa [hs.items, List.map_nil, List.nil_append]
  have htidy := ht.neat.tidy
  have hnames : names = t.titles.map .text := htidy.filter_itemNames
  obtain ⟨ns, hns, hperm⟩ := htidy.listed
  rw [hnames, hns]
  refine ⟨htidy.nodup.map ?_, hperm.map _, fun c hc name => ht.ends hc name⟩
  exact fun m n h => Value.text.inj h

def silent (n : Nat) : Studio := { channels := List.replicate n {} }

theorem getElem?_silent (h : (silent n).channels[c]? = some ch) : ch = {} := eq_of_mem_replicate (mem_of_getElem? h)

theorem vacant_silent (n : Nat) : (silent n).Vacant := by
  refine ⟨rfl, rfl, fun c l hl => ?_⟩
  obtain ⟨ch, hch, hmem⟩ := hl
  rw [getElem?_silent hch] at hmem
  exact absurd hmem (not_mem_nil)

theorem hears_silent (N : Nat → Prop) (n : Nat) : (silent n).Hears N := by
  intro c _ v hv
  obtain ⟨ch, hch, rfl⟩ := Option.map_eq_some_iff.mp hv
  rw [getElem?_silent hch]
  exact .inl rfl

def crossed : List Naming :=
  [.add "textLayer" [("Name", 0), ("Layer", 1)] (.int 2), .say 2 "sun", .say 0 "sun",
    .add "shapeLayer" [("Layer", 0), ("Name", 2)] (.int 3), .say 0 "sun 1", .say 2 "sun"]

theorem names_explore_crossed :
    let t := (silent 3).explore crossed
    let names := t.itemNames.filter (!·.isNone)
    names.Nodup ∧ t.explorer.names.Perm names ∧
      ∀ c < t.channels.length, ∀ name, t.Ends (2 * t.followers c + 2) c (.text name) :=
  names_explore (vacant_silent 3) crossed (by decide) (hears_silent _ 3)

end Studio

end WatchFace
