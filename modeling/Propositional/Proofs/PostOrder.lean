import Propositional.Record
import Propositional.Proofs.Nesting

/- The order in which operators are applied. A node of a formula is known by the way that leads
   down to it from the root, its place (`Formula.at?`), and `Before` orders the places: what
   stands inside a node comes before the node, and the left operand before the right one. Reading
   applies the connectives of a formula in exactly this order and each at its own place
   (`Formula.map_at?_places`), though an application may be brought about by an operator that
   follows, by a closing parenthesis or by the end of the input
   (`reductions_in_post_order`). -/
namespace Propositional

/-- A step down from a node to one of its operands. -/
inductive Turn where
  | inner
  | left
  | right
deriving DecidableEq

/-- The node at the first place comes before the one at the second in post-order. -/
inductive Before : List Turn → List Turn → Prop where
  | inside (t : Turn) (π : List Turn) : Before (t :: π) []
  | across (π ρ : List Turn) : Before (.left :: π) (.right :: ρ)
  | along (t : Turn) {π ρ : List Turn} : Before π ρ → Before (t :: π) (t :: ρ)

theorem Before.irrefl : ∀ {π : List Turn}, ¬ Before π π
  | [], h => nomatch h
  | _ :: _, .along _ h => h.irrefl

namespace Formula

/-- The formula that the way down leads to. -/
def at? : Formula → List Turn → Option Formula
  | f, [] => some f
  | not a, .inner :: π => a.at? π
  | binary _ l _, .left :: π => l.at? π
  | binary _ _ r, .right :: π => r.at? π
  | _, _ :: _ => none

/-- The places of the connectives, in the order of their operands' ends. -/
def places : Formula → List (List Turn)
  | const _ | var _ => []
  | not a => a.places.map (.inner :: ·)
  | binary _ l r => l.places.map (.left :: ·) ++ r.places.map (.right :: ·) ++ [[]]

theorem mem_places : ∀ {f : Formula} {π : List Turn},
    π ∈ f.places ↔ ∃ c l r, f.at? π = some (binary c l r)
  | const _, [] | var _, [] | const _, _ :: _ | var _, _ :: _ => by simp [places, at?]
  | not a, [] => by simp [places, at?]
  | not a, t :: π => by
    cases t <;> simp [places, at?, mem_places]
  | binary c l r, [] => by simp [places, at?]
  | binary c l r, t :: π => by
    cases t <;> simp [places, at?, mem_places]

theorem pairwise_places : ∀ f : Formula, f.places.Pairwise Before
  | const _ | var _ => .nil
  | not a => (pairwise_places a).map _ (fun _ _ => .along .inner)
  | binary c l r => by
    have left : (l.places.map (.left :: ·)).Pairwise Before :=
      (pairwise_places l).map _ (fun _ _ => .along .left)
    have right : (r.places.map (.right :: ·)).Pairwise Before :=
      (pairwise_places r).map _ (fun _ _ => .along .right)
    refine List.pairwise_append.mpr ⟨List.pairwise_append.mpr ⟨left, right, ?_⟩,
      List.pairwise_singleton _ _, ?_⟩
    · intro π hπ ρ hρ
      obtain ⟨π, -, rfl⟩ := List.mem_map.mp hπ
      obtain ⟨ρ, -, rfl⟩ := List.mem_map.mp hρ
      exact .across π ρ
    · intro π hπ ρ hρ
      obtain rfl := List.mem_singleton.mp hρ
      obtain hπ | hπ := List.mem_append.mp hπ
      · obtain ⟨π, -, rfl⟩ := List.mem_map.mp hπ
        exact .inside _ π
      · obtain ⟨π, -, rfl⟩ := List.mem_map.mp hπ
        exact .inside _ π

theorem nodup_places (f : Formula) : f.places.Nodup := by
  refine f.pairwise_places.imp ?_
  rintro π _ before rfl
  exact before.irrefl

/-- The applications that build a formula are made at the places of its connectives. -/
theorem map_at?_places : ∀ f : Formula,
    f.places.map f.at? = f.reductions.map (fun a => some a.formula)
  | const _ | var _ => rfl
  | not a => by
    rw [places, List.map_map]
    exact map_at?_places a
  | binary c l r => by
    have left : (l.places.map (.left :: ·)).map (binary c l r).at? = l.places.map l.at? :=
      List.map_map
    have right : (r.places.map (.right :: ·)).map (binary c l r).at? = r.places.map r.at? :=
      List.map_map
    rw [places, reductions, List.map_append, List.map_append, left, right, map_at?_places l,
      map_at?_places r, List.map_append, List.map_append]
    rfl

theorem operator_of_mem_reductions {a : Reduction} : ∀ {f : Formula}, a ∈ f.reductions →
    a.operator = a.formula.symbol
  | not g, h => operator_of_mem_reductions (f := g) h
  | binary c l r, h => by
    simp only [reductions, List.mem_append, List.mem_singleton] at h
    obtain (h | h) | rfl := h
    · exact operator_of_mem_reductions h
    · exact operator_of_mem_reductions h
    · rfl

end Formula

/-- What is noted while a formula is read is its connectives in post-order. The applications
    are those of the left operand, those of the right one and then that of the connective itself,
    all the way down. Each is made at a place of its own, where a connective stands; no such
    place is left out; what is inside a connective comes before it and what is left of its sign
    before what is right; and the record names the connective and shows what stands there. With a
    parser that was used before, the same is noted behind what it had noted. -/
theorem reductions_in_post_order (ts : List Token) (p : Parsed) (h : Formula.parse ts = .ok p) :
    p.reductions = p.formula.reductions ∧
    (∃ places : List (List Turn),
      (∀ π, π ∈ places ↔ ∃ c l r, p.formula.at? π = some (.binary c l r)) ∧
      places.Pairwise Before ∧ places.Nodup ∧
      places.map p.formula.at? = p.reductions.map (fun a => some a.formula) ∧
      ∀ a ∈ p.reductions, a.operator = a.formula.symbol ∧
        (Record.reduced a).text =
          "reduce " ++ a.formula.symbol.name ++ ": " ++ a.formula.render) ∧
    ∀ q : Parse, q.reuse ts = .ok { p with reductions := q.reductions.reverse ++ p.reductions } := by
  have derived : Derives 0 (beforeEnd ts) p.formula := derives_of_parse h
  obtain ⟨f, vars, reductions⟩ := p
  obtain ⟨rfl, rfl⟩ : vars = f.vars ∧ reductions = f.reductions := by
    have same := (parse_of_derives derived).symm.trans h
    simpa [eq_comm] using same
  refine ⟨rfl, ⟨f.places, fun π => f.mem_places, f.pairwise_places, f.nodup_places,
    f.map_at?_places, fun a ha => ?_⟩, fun q => Parse.run_of_derives derived q.reductions⟩
  have operator : a.operator = a.formula.symbol := Formula.operator_of_mem_reductions ha
  exact ⟨operator, by rw [← operator]; rfl⟩

/-- Equal operands are two nodes and noted twice, and a negation not at all. -/
theorem reductions_in_post_order_equal_operands :
    let f : Formula := .and (.var "p") (.var "q")
    let group : List Token := [⟨.opening, .literal "("⟩, ⟨.var, .literal "p"⟩,
      ⟨.connective (.junction .and), .literal "&"⟩, ⟨.var, .literal "q"⟩, ⟨.closing, .literal ")"⟩]
    let ts : List Token := group ++
      [⟨.connective (.derived .implies), .literal "->"⟩, ⟨.not, .literal "~"⟩] ++ group
    ∃ p : Parsed, Formula.parse ts = .ok p ∧ p.formula = .implies f (.not f) ∧
      p.reductions = [⟨.connective (.junction .and), f⟩, ⟨.connective (.junction .and), f⟩,
        ⟨.connective (.derived .implies), .implies f (.not f)⟩] ∧
      ∃ places : List (List Turn), places.map p.formula.at? = [some f, some f, some p.formula] ∧
        [.right, .inner] ∈ places := by
  intro f group ts
  have parsed : Formula.parse ts = .ok ⟨.implies f (.not f), ["p", "q"], _⟩ := rfl
  obtain ⟨noted, ⟨places, connectives, -, -, shown, -⟩, -⟩ := reductions_in_post_order ts _ parsed
  have inner : [.right, .inner] ∈ places :=
    (connectives _).mpr ⟨.junction .and, .var "p", .var "q", rfl⟩
  exact ⟨_, parsed, rfl, noted, places, shown, inner⟩

end Propositional
