import WatchFace.DropFrame
import WatchFace.Proofs.Resizing

/-!
# Where a drop frame ends up

A drop frame remembers where it was last asked for while it was seen, and ignores the same request made again. It keeps
that when it is hidden, and does not look where it appears next.
-/

namespace WatchFace.DropFrame

/-! ### Requests -/

/-- What a drop frame is asked for; `gliding` tells whether its animation runs at that time. -/
inductive Request where
  | change (gliding : Bool) (x y width height : Int)
  | hide
  deriving Repr, DecidableEq

def Request.goal? : Request → Option Rect
  | change _ x y width height => some (.about x y width height)
  | hide => none

def serve : DropFrame × List Event → Request → DropFrame × List Event
  | (f, told), .change gliding x y width height =>
    let (f, events) := { f with gliding }.change x y width height
    (f, told ++ events)
  | (f, told), .hide => (f.hide, told)

def after (requests : List Request) : DropFrame × List Event := requests.foldl serve ({}, [])

def Event.goal? : Event → Option Rect
  | stop => none
  | glide _ goal => some goal

def lastGoal? (told : List Event) : Option Rect := (told.filterMap Event.goal?).getLast?

def Reaches (s : DropFrame × List Event) (goal : Rect) : Prop :=
  s.1.visible = true ∧ (s.1.geometry = goal ∨ lastGoal? s.2 = some goal)

/-- Whether a drop frame is seen, which it is from a change to the next hide, and where it was last asked for while it
    was. -/
def watched (requests : List Request) : Bool × Option Rect :=
  requests.foldl (fun s r => (r.goal?.isSome, if s.1 then r.goal?.or s.2 else s.2)) (false, none)

/-- A place was the last one asked for while the frame was seen, and its animation was last sent elsewhere. Then the
    frame was hidden and appeared at another place, and from then on was asked for the first one only. -/
def Overlooked (requests : List Request) (goal : Rect) : Prop :=
  ∃ earlier first later place, requests = earlier ++ first :: later ∧ watched earlier = (false, some goal) ∧
    lastGoal? (after earlier).2 ≠ some goal ∧ first.goal? = some place ∧ place ≠ goal ∧
    ∀ r ∈ later, r.goal? = some goal

/-! ### One request -/

theorem after_concat (requests : List Request) (r : Request) : after (requests ++ [r]) = serve (after requests) r := by
  simp [after]

theorem watched_concat (requests : List Request) (r : Request) : watched (requests ++ [r]) =
    (r.goal?.isSome, if (watched requests).1 then r.goal?.or (watched requests).2 else (watched requests).2) := by
  rw [watched, List.foldl_append]
  rfl

section

variable {s : DropFrame × List Event} {r : Request} {goal : Rect}

theorem serve_of_goal?_eq_none (hr : r.goal? = none) : serve s r = (s.1.hide, s.2) := by
  cases r with
  | change gliding x y width height => cases hr
  | hide => rfl

theorem serve_change_cases (hr : r.goal? = some goal) : (serve s r).1.visible = true ∧
    (s.1.visible = false ∧ (serve s r).1.target = s.1.target ∧
        (∀ place, Reaches (serve s r) place ↔ goal = place ∨ lastGoal? s.2 = some place) ∨
      s.1.visible = true ∧ (serve s r).1.target = some goal ∧ s.1.target = some goal ∧
        (Reaches (serve s r) goal ↔ Reaches s goal) ∨
      s.1.visible = true ∧ (serve s r).1.target = some goal ∧ s.1.target ≠ some goal ∧ Reaches (serve s r) goal) := by
  obtain ⟨f, told⟩ := s
  cases r with
  | hide => cases hr
  | change gliding x y width height =>
    cases hr
    simp only [serve, change]
    by_cases hvisible : f.visible = true
    · by_cases htarget : f.target = some (.about x y width height)
      · simp [Reaches, hvisible, htarget]
      · simp only [hvisible, htarget, Bool.not_true, Bool.false_eq_true, if_false]
        split <;> simp [Reaches, lastGoal?, Event.goal?, htarget]
    · simp [Reaches, hvisible]

end

theorem watched_eq (requests : List Request) :
    watched requests = ((after requests).1.visible, (after requests).1.target) := by
  induction requests using List.reverseRecOn with
  | nil => rfl
  | append_singleton requests r ih =>
    rw [watched_concat, after_concat, ih]
    cases hr : r.goal? with
    | none => simp [serve_of_goal?_eq_none hr, hide]
    | some goal =>
      obtain ⟨hvisible, ⟨hs, htarget, -⟩ | ⟨hs, htarget, -⟩ | ⟨hs, htarget, -⟩⟩ :=
        serve_change_cases (s := after requests) hr
      all_goals simp [hs, hvisible, htarget]

theorem overlooked_concat_iff (requests : List Request) (r : Request) (goal : Rect) :
    Overlooked (requests ++ [r]) goal ↔
      (watched requests = (false, some goal) ∧ lastGoal? (after requests).2 ≠ some goal ∧
        ∃ place, r.goal? = some place ∧ place ≠ goal) ∨ Overlooked requests goal ∧ r.goal? = some goal := by
  constructor
  · rintro ⟨earlier, first, later, place, hsplit, hwatched, hgoal, hplace, hne, hlater⟩
    obtain ⟨rfl, rfl, rfl⟩ | ⟨rest, rfl, rfl⟩ := Window.concat_eq_append_cons_iff.mp hsplit
    · exact .inl ⟨hwatched, hgoal, place, hplace, hne⟩
    · obtain ⟨hrest, hr⟩ := List.forall_mem_append.mp hlater
      exact .inr ⟨⟨earlier, first, rest, place, rfl, hwatched, hgoal, hplace, hne, hrest⟩, hr r (.head _)⟩
  · rintro (⟨hwatched, hgoal, place, hplace, hne⟩ | ⟨⟨earlier, first, later, place, rfl, hwatched, hgoal, hplace, hne,
      hlater⟩, hr⟩)
    · exact ⟨requests, r, [], place, rfl, hwatched, hgoal, hplace, hne, List.forall_mem_nil _⟩
    · refine ⟨earlier, first, later ++ [r], place, by simp, hwatched, hgoal, hplace, hne, ?_⟩
      exact List.forall_mem_append.mpr ⟨hlater, by simpa using hr⟩

theorem overlooked_iff (requests : List Request) (goal : Rect) : Overlooked requests goal ↔
    (after requests).1.visible = true ∧ (after requests).1.target = some goal ∧ ¬ Reaches (after requests) goal := by
  induction requests using List.reverseRecOn with
  | nil => simp [Overlooked, after]
  | append_singleton requests r ih =>
    rw [overlooked_concat_iff, ih, watched_eq, after_concat, Prod.mk.injEq]
    cases hr : r.goal? with
    | none => simp [serve_of_goal?_eq_none hr, hide]
    | some place =>
      obtain ⟨hvisible, ⟨hs, htarget, hreaches⟩ | ⟨hs, htarget, hs', hreaches⟩ | ⟨hs, htarget, hs', hreaches⟩⟩ :=
        serve_change_cases (s := after requests) hr
      · simp only [hs, hvisible, htarget, hreaches]
        grind
      · simp only [hs, hvisible, htarget, hs']
        grind
      · simp only [hs, hvisible, htarget]
        grind

/-- **When a drop frame goes where it is asked for.** After any requests that end in a change, whether or not its
    animation runs, it is seen and is at the place or was last set on its way to it, unless it overlooks the place. -/
theorem reaches_iff (requests : List Request) (gliding : Bool) (x y width height : Int) :
    Reaches (after (requests ++ [.change gliding x y width height])) (.about x y width height) ↔
      ¬ Overlooked requests (.about x y width height) := by
  have hgoal : (Request.change gliding x y width height).goal? = some (.about x y width height) := rfl
  rw [after_concat, overlooked_iff]
  obtain ⟨-, ⟨hs, -, hreaches⟩ | ⟨hs, -, htarget, hreaches⟩ | ⟨hs, -, htarget, hreaches⟩⟩ :=
    serve_change_cases (s := after requests) hgoal
  · simp [hreaches, hs]
  · simp [hreaches, hs, htarget]
  · simp [hreaches, htarget]

def sampleRequests : List Request :=
  [.change false 50 50 20 20, .change false 55 50 20 20, .hide, .change false 50 50 20 20]

/-- The second move is not made. -/
theorem not_reaches_sampleRequests :
    ¬ Reaches (after (sampleRequests ++ [.change false 55 50 20 20])) (.about 55 50 20 20) := by
  unfold Reaches
  decide

end WatchFace.DropFrame
