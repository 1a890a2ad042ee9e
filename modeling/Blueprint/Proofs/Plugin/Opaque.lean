import Blueprint.Proofs.Object.Renaming
import Blueprint.Proofs.Plugin.Conservative

/-!
# Plugins to which handles are opaque

A plugin can compare handles and look at the objects behind them, but the number in a handle means nothing to it. So if
the objects that it sees are stored under other handles, it builds the same object with other handles in it. A plugin
may still know handles of objects that were there before it; `n` bounds those.
-/

namespace Blueprint

open Function (Injective)

/-! ## Opaque plugins -/

/-- A function of the description returns no handles but those below `n`. -/
def Reader.Within (n : Nat) : Reader → Prop
  | .custom read _ _ => ∀ raw value, read raw = .ok value → ∀ h ∈ value.held, h.index < n
  | _ => True

theorem Reader.Within.index_lt {n : Nat} {reader : Reader} (h : reader.Within n) {raw : Json} {value : Value}
    (hv : reader.read raw = .ok value) {x : Handle} (hx : x ∈ value.held) : x.index < n := by
  cases reader with
  | custom read => exact h raw value hv x hx
  | _ =>
    rw [Reader.held_of_plain (by trivial) hv] at hx
    cases hx

def Loader.Within (n : Nat) : Loader → Prop
  | .read reader => reader.Within n
  | .listOf item => item.Within n
  | .category _ => True

theorem Loader.within_of_standard {n : Nat} {l : Loader} (h : l.standard = true) : l.Within n := by
  induction l with
  | read reader => cases reader <;> first | exact trivial | cases h
  | listOf item ih => exact ih h
  | category name => exact trivial

/-- Under other handles a builder builds the same object, or fails with the same error. -/
def Builder.Natural (n : Nat) (b : Builder) : Prop :=
  ∀ ρ, Injective ρ → (∀ h, h.index < n → ρ h = h) → ∀ s s', Store.Renamed ρ s s' → ∀ args,
    b.build s' (args.mapHandles ρ) = (b.build s args).map (Object.mapHandles ρ)

/-- Defaults, readers and builder know no handles but those below `n`. -/
structure Plugin.Opaque (n : Nat) (p : Plugin) : Prop where
  defaults : ∀ q ∈ p.parameters, ∀ value, q.default = some value → ∀ h ∈ value.held, h.index < n
  loaders : ∀ q ∈ p.parameters, q.loader.Within n
  builder : p.builder.Natural n

section
variable {n m : Nat} (hnm : n ≤ m)
include hnm

theorem Reader.Within.mono {reader : Reader} (h : reader.Within n) : reader.Within m := by
  cases reader with
  | custom read => exact fun raw value hv x hx => Nat.lt_of_lt_of_le (h raw value hv x hx) hnm
  | _ => exact trivial

theorem Loader.Within.mono {l : Loader} (h : l.Within n) : l.Within m := by
  induction l with
  | read reader => exact Reader.Within.mono hnm h
  | listOf item ih => exact ih h
  | category name => exact trivial

theorem Builder.Natural.mono {b : Builder} (h : b.Natural n) : b.Natural m :=
  fun ρ hρ hfix => h ρ hρ fun x hx => hfix x (Nat.lt_of_lt_of_le hx hnm)

theorem Plugin.Opaque.mono {p : Plugin} (h : p.Opaque n) : p.Opaque m where
  defaults q hq value hv x hx := Nat.lt_of_lt_of_le (h.defaults q hq value hv x hx) hnm
  loaders q hq := (h.loaders q hq).mono hnm
  builder := h.builder.mono hnm

end

theorem Builder.Natural.of_parts {b : Builder}
    (construct : ∀ ρ, Injective ρ → ∀ s s', Store.Renamed ρ s s' → ∀ args : Arguments,
      b.construct s' (args.mapHandles ρ) = (b.construct s args).map (Object.mapHandles ρ))
    (remap : ∀ ρ, ∀ args : Arguments, b.remap (args.mapHandles ρ) = (b.remap args).mapHandles ρ)
    (finish : ∀ ρ o, ∀ args : Arguments,
      b.finish (o.mapHandles ρ) (args.mapHandles ρ) = (b.finish o args).map (Object.mapHandles ρ)) :
    b.Natural 0 := by
  intro ρ hρ _ s s' hs args
  simp only [Builder.build, remap, construct ρ hρ s s' hs]
  cases b.construct s (b.remap args) with
  | error e => rfl
  | ok o => exact finish ρ o args

theorem Builder.Natural.of_construct {c : Constructor} {path : Option String}
    (h : ∀ ρ, Injective ρ → ∀ s s', Store.Renamed ρ s s' → ∀ args : Arguments,
      c s' (args.mapHandles ρ) = (c s args).map (Object.mapHandles ρ)) :
    Builder.Natural 0 { construct := c, path } :=
  .of_parts h (fun _ _ => rfl) fun _ _ _ => rfl

/-- What a builder makes of handles of a store holds only handles of the store: it would otherwise depend on how the
handles that are not in use are called. -/
theorem Builder.Natural.index_lt {b : Builder} {s : Store} (h : b.Natural s.objects.length) (hs : s.Closed)
    {args : Arguments} (hargs : ∀ x ∈ args.held, x.index < s.objects.length) {o : Object}
    (ho : b.build s args = .ok o) : ∀ x ∈ o.held, x.index < s.objects.length := by
  have hfix : ∀ x : Handle, x.index < s.objects.length → Handle.raise s.objects.length 1 x = x :=
    fun x hx => Handle.raise_of_lt hx
  have hrenamed : Store.Renamed (Handle.raise s.objects.length 1) s s := by
    refine hs.renamed hfix (fun x hx => ?_) fun _ _ => rfl
    rw [Handle.raise_of_le hx, Store.get?_eq_none]
    exact Nat.le_succ_of_le hx
  -- the builder is given the same arguments and sees the same objects, so it builds the same
  have hbuild := h _ (Handle.raise_injective _ 1) hfix s s hrenamed args
  rw [Arguments.mapHandles_eq_self fun x hx => hfix x (hargs x hx), ho] at hbuild
  have hself : o.mapHandles (Handle.raise s.objects.length 1) = o := by
    simpa [Except.map] using hbuild.symm
  intro x hx
  have hraised := Object.fixed_of_mapHandles_eq_self hself hx
  rcases Nat.lt_or_ge x.index s.objects.length with hlt | hle
  · exact hlt
  · rw [Handle.raise_of_le hle] at hraised
    have hindex : x.index + 1 = x.index := congrArg Handle.index hraised
    omega

end Blueprint
