import LiveProbe.Proofs.Expr.Deriving

/-!
# Heights of parsed trees

How high a tree gets by the levels that reading it takes.

**Charging.**  A level is given back when the construct that entered it is complete.  The
links of a chain sink the operands before them, yet each chain may use up all levels for
links of its own, and so may the suffixes of the primary at its bottom.  A list at the
bottom leaves one level less to the expressions inside.  Comparisons are not charged.

**Bound.**  With `r` levels, five kinds of links make up to `5 * r` nodes above one
primary, and one more is that of a comparison.  Summed over the lists inside one another,
heights grow with the square of the levels (`tallest`).

**Results.**
* `Derivation.height_le`: the bound for phrases of any kind.
* `Derivation.height_le_tallest`: the bound for expressions.
-/

namespace LiveProbe

/-- The largest height of a primary that takes so many levels. -/
def tallestPrimary : Nat → Nat
  | 0 => 0
  | r + 1 => tallestPrimary r + 5 * r + 2

/-- The largest height of an expression that takes so many levels. -/
def tallest (r : Nat) : Nat := tallestPrimary r + 5 * r + 1

theorem tallestPrimary_succ
    (r : Nat) :
    tallestPrimary (r + 1) = tallest r + 1 := by
  simp only [tallestPrimary, tallest]

/-- The kinds of links that may stand between a phrase and the primary at its bottom, not
counting those of the phrase itself. -/
def Phrase.slope : Phrase → Nat
  | .primary => 0
  | .suffixed => 0
  | .signed => 1
  | .chain .product => 1
  | .chain .sum => 2
  | .comparison => 3
  | .linked => 3
  | .negation => 3
  | .chain .and => 3
  | .chain .or => 4
  | .items => 5
  | .listed => 5

/-- The kinds of links, with those of the phrase itself. -/
def Phrase.span : Phrase → Nat
  | .chain k => (Phrase.chain k).slope + 1
  | .suffixed => 1
  | p => p.slope

/-- The nodes that are not charged: that of a comparison, and that of the list which the
items are held in. -/
def Phrase.uncharged : Phrase → Nat
  | .comparison => 1
  | .linked => 1
  | .negation => 1
  | .chain .and => 1
  | .chain .or => 1
  | .items => 2
  | .listed => 2
  | _ => 0

/-- Below the links of a chain stands what its operand may span. -/
theorem Phrase.slope_chain
    (k : Parser.Chain) :
    (Phrase.chain k).slope = k.operand.span := by
  cases k <;> rfl

theorem Phrase.uncharged_operand_le
    (k : Parser.Chain) :
    k.operand.uncharged ≤ (Phrase.chain k).uncharged := by
  cases k <;> decide

namespace Expr

/-- A link puts one level above the taller of its two sides. -/
theorem height_join
    {k : Parser.Chain} {op : TokenKind} {join : Expr → Expr → Expr}
    (h : k.join? op = some join)
    (l r : Expr) :
    (join l r).height = max l.height r.height + 1 := by
  unfold Parser.Chain.join? at h
  split at h <;> cases h <;> simp only [height]

/-- A sign puts at most one level above its operand, and none above a numeral. -/
theorem height_negated_le
    (e : Expr) :
    (Parser.negated e).height ≤ e.height + 1 := by
  unfold Parser.negated
  split <;> simp [height]

theorem height_of_atom?
    {t : TokenKind} {e : Expr}
    (h : t.atom? = some e) :
    e.height = 0 := by
  unfold TokenKind.atom? at h
  split at h <;> cases h <;> simp only [height]

theorem heightLinks_append
    (links more : List (CompareOp × Expr)) :
    heightLinks (links ++ more) = max (heightLinks links) (heightLinks more) := by
  induction links with
  | nil => simp [heightLinks]
  | cons link links ih => simp [heightLinks, ih, Nat.max_assoc]

end Expr

namespace Derivation

variable {callable : List TokenKind → Prop} {p : Phrase} {ts : List TokenKind} {e : Expr}

/-- The links of a phrase are paid for by its levels. -/
theorem links_add_le
    (D : Derivation callable p ts e)
    {r : Nat}
    (hr : D.levels ≤ r) :
    D.links + p.slope * r ≤ p.span * r := by
  have hlinks := D.links_le_levels
  cases p with
  | chain k =>
      rw [Phrase.span, Nat.succ_mul]
      omega
  | suffixed =>
      simp only [Phrase.slope, Phrase.span]
      omega
  | _ => cases D <;> simp [links, Phrase.span]

/-- A bound for open phrases, of which the links so far are counted one by one. -/
def Low (D : Derivation callable p ts e) : Prop :=
  ∀ r : Nat, D.levels ≤ r →
    e.height ≤ D.links + p.slope * r + p.uncharged + tallestPrimary r

/-- Once the links of a phrase are complete, its span bounds its height. -/
theorem Low.closed
    {D : Derivation callable p ts e}
    (h : D.Low)
    {r : Nat}
    (hr : D.levels ≤ r) :
    e.height ≤ p.span * r + p.uncharged + tallestPrimary r := by
  have hbound := h r hr
  have hlinks := D.links_add_le hr
  omega

/-- A whole expression within `r` levels is at most `tallest r` high. -/
theorem Low.expression
    {D : Derivation callable (.chain .or) ts e}
    (h : D.Low)
    {r : Nat}
    (hr : D.levels ≤ r) :
    e.height ≤ tallest r := by
  have hbound := h.closed hr
  simp only [Phrase.span, Phrase.slope, Phrase.uncharged] at hbound
  unfold tallest
  omega

theorem Low.items
    {es : List Expr} {D : Derivation callable .items ts (.list es)}
    (h : D.Low)
    {r : Nat}
    (hr : D.levels ≤ r) :
    Expr.heightItems es ≤ tallest r := by
  have hbound := h.closed hr
  simp only [Phrase.span, Phrase.slope, Phrase.uncharged, Expr.height] at hbound
  unfold tallest
  omega

/-- Below a level of its own an expression is as high as one level less allows. -/
theorem Low.inside
    {D : Derivation callable (.chain .or) ts e}
    (h : D.Low)
    {r : Nat}
    (hr : D.levels + 1 ≤ r) :
    e.height + 1 ≤ tallestPrimary r := by
  obtain _ | r := r
  · cases hr
  · have hbound := h.expression (Nat.le_of_succ_le_succ hr)
    rw [tallestPrimary_succ]
    omega

/-- The items between brackets have one level less to use. -/
theorem Low.itemsInside
    {es : List Expr} {D : Derivation callable .items ts (.list es)}
    (h : D.Low)
    {r : Nat}
    (hr : D.levels + 1 ≤ r) :
    Expr.heightItems es + 1 ≤ tallestPrimary r := by
  obtain _ | r := r
  · cases hr
  · have hbound := h.items (Nat.le_of_succ_le_succ hr)
    rw [tallestPrimary_succ]
    omega

/-- A sign in front adds a node at most, and takes a level. -/
theorem Low.signed
    {us : List TokenKind} {e' : Expr} {D : Derivation callable p ts e}
    (h : D.Low)
    (D' : Derivation callable p us e')
    (hp : D.links = 0)
    (hlevels : D'.levels = D.levels + 1)
    (hheight : e'.height ≤ e.height + 1) :
    D'.Low := by
  intro r hr
  rw [hlevels] at hr
  obtain _ | r := r
  · cases hr
  · have hbound := h r (Nat.le_of_succ_le_succ hr)
    have hslope : p.slope * r ≤ p.slope * (r + 1) := Nat.mul_le_mul_left _ (Nat.le_succ r)
    simp only [tallestPrimary]
    omega

/-- A looser kind of phrase allows for all links of a tighter one. -/
theorem Low.looser
    {p' : Phrase} {D : Derivation callable p ts e}
    (h : D.Low)
    (D' : Derivation callable p' ts e)
    (hlevels : D.levels = D'.levels)
    (hspan : p.span = p'.slope)
    (huncharged : p.uncharged ≤ p'.uncharged) :
    D'.Low := by
  intro r hr
  have hbound := h.closed (hlevels ▸ hr)
  rw [hspan] at hbound
  omega

/-- The bound for a phrase, form by form: each form adds to the height what it adds to the levels.
-/
theorem low
    (D : Derivation callable p ts e) :
    D.Low := by
  induction D with
  | @operand k _ _ d ih =>
      exact ih.looser d.operand rfl (Phrase.slope_chain k).symm (Phrase.uncharged_operand_le k)
  | @link k _ _ _ _ _ _ _ hop hjoin left right ihl ihr =>
      intro r hr
      simp only [levels, Nat.max_le] at hr
      have hleft := ihl r hr.1
      have hright := Low.closed ihr (Nat.le_trans (Nat.le_add_left _ _) hr.2)
      have huncharged := Phrase.uncharged_operand_le k
      rw [← Phrase.slope_chain] at hright
      subst hjoin
      simp only [Expr.height_join hop, links]
      omega
  | not d ih => exact ih.signed d.not (by cases d <;> rfl) rfl (by simp [Expr.height])
  | positive d ih => exact ih.looser d.positive rfl rfl (Nat.le_refl _)
  | sum d ih => exact ih.looser d.sum rfl rfl (Nat.zero_le _)
  | linked d ih => exact ih.looser d.linked rfl rfl (Nat.le_refl _)
  | first left right ihl ihr =>
      intro r hr
      simp only [levels, Nat.max_le] at hr
      have hleft := Low.closed ihl hr.1
      have hright := Low.closed ihr hr.2
      simp only [Phrase.span, Phrase.slope, Phrase.uncharged, Expr.height, Expr.heightLinks]
        at hleft hright ⊢
      omega
  | further left right ihl ihr =>
      intro r hr
      simp only [levels, Nat.max_le] at hr
      have hleft := Low.closed ihl hr.1
      have hright := Low.closed ihr hr.2
      simp only [Phrase.span, Phrase.slope, Phrase.uncharged, Expr.height, Expr.heightLinks,
        Expr.heightLinks_append] at hleft hright ⊢
      omega
  | minus d ih =>
      exact ih.signed d.minus (by cases d <;> rfl) rfl (Expr.height_negated_le _)
  | plus d ih => exact ih.signed d.plus (by cases d <;> rfl) rfl (Nat.le_succ _)
  | unsigned d ih => exact ih.looser d.unsigned rfl rfl (Nat.le_refl _)
  | unsuffixed d ih => exact ih.looser d.unsuffixed rfl rfl (Nat.le_refl _)
  | field target ih =>
      intro r hr
      simp only [levels, Nat.max_le] at hr
      have htarget := ih r hr.1
      simp only [links, Expr.height]
      omega
  | index target key iht ihk =>
      intro r hr
      simp only [levels, Nat.max_le] at hr
      have htarget := iht r hr.1
      have hkey := Low.inside ihk (r := r) (by omega)
      simp only [links, Expr.height]
      omega
  | call target hcallable args iht iha =>
      intro r hr
      simp only [levels, Nat.max_le] at hr
      have hargs := Low.itemsInside iha (r := r) (by omega)
      simp only [links, Expr.height]
      omega
  | atom h =>
      intro r hr
      rw [Expr.height_of_atom? h]
      exact Nat.zero_le _
  | parens d ih =>
      intro r hr
      have hbound := ih.inside hr
      omega
  | list d ih =>
      intro r hr
      have hbound := Low.itemsInside ih hr
      simp only [Expr.height]
      omega
  | nothing =>
      intro r hr
      simp only [Phrase.uncharged, Expr.height, Expr.heightItems]
      omega
  | listed d ih => exact ih.looser d.listed rfl rfl (Nat.le_refl _)
  | last d ih =>
      intro r hr
      have hbound := ih.expression hr
      simp only [tallest, Phrase.slope, Phrase.uncharged, Expr.height, Expr.heightItems]
        at hbound ⊢
      omega
  | lastComma d ih =>
      intro r hr
      have hbound := ih.expression hr
      simp only [tallest, Phrase.slope, Phrase.uncharged, Expr.height, Expr.heightItems]
        at hbound ⊢
      omega
  | more d others ih iho =>
      intro r hr
      simp only [levels, Nat.max_le] at hr
      have hbound := ih.expression hr.1
      have hothers := Low.closed iho hr.2
      simp only [tallest, Phrase.slope, Phrase.span, Phrase.uncharged, Expr.height,
        Expr.heightItems] at hbound hothers ⊢
      omega

theorem height_le_tallest
    (D : Derivation callable (.chain .or) ts e)
    {r : Nat}
    (hr : D.levels ≤ r) :
    e.height ≤ tallest r :=
  D.low.expression hr

end Derivation
end LiveProbe
