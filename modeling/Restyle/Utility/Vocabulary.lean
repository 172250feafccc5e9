namespace Restyle.Utility

def flexDirections : List (String × String) := [
  ("row", "flex-row"), ("row-reverse", "flex-row-reverse"), ("column", "flex-col"),
  ("column-reverse", "flex-col-reverse")]

def itemAlignments : List (String × String) := [
  ("flex-start", "items-start"), ("flex-end", "items-end"), ("center", "items-center"),
  ("baseline", "items-baseline"), ("stretch", "items-stretch")]

def contentAlignments : List (String × String) := [
  ("flex-start", "content-start"), ("flex-end", "content-end"), ("center", "content-center"),
  ("stretch", "content-stretch"), ("space-between", "content-between"),
  ("space-around", "content-around")]

def justifications : List (String × String) := [
  ("flex-start", "justify-start"), ("flex-end", "justify-end"), ("center", "justify-center"),
  ("space-between", "justify-between"), ("space-around", "justify-around"),
  ("space-evenly", "justify-evenly")]

def selfAlignments : List (String × String) := [
  ("auto", "self-auto"), ("flex-start", "self-start"), ("flex-end", "self-end"),
  ("center", "self-center"), ("stretch", "self-stretch"), ("baseline", "self-baseline")]

def wraps : List (String × String) := [
  ("wrap", "flex-wrap"), ("nowrap", "flex-nowrap"), ("wrap-reverse", "flex-wrap-reverse")]

def positions : List (String × String) := [
  ("absolute", "absolute"), ("relative", "relative")]

def displays : List (String × String) := [
  ("flex", "flex"), ("none", "hidden")]

def overflows : List (String × String) := [
  ("visible", "overflow-visible"), ("hidden", "overflow-hidden"), ("scroll", "overflow-scroll")]

def textAlignments : List (String × String) := [
  ("left", "text-left"), ("center", "text-center"), ("right", "text-right"),
  ("justify", "text-justify")]

def textTransforms : List (String × String) := [
  ("uppercase", "uppercase"), ("lowercase", "lowercase"), ("capitalize", "capitalize"),
  ("none", "normal-case")]

def decorations : List (String × String) := [
  ("underline", "underline"), ("line-through", "line-through"), ("none", "no-underline"),
  ("underline line-through", "underline line-through")]

def borderStyles : List (String × String) := [
  ("solid", "border-solid"), ("dashed", "border-dashed"), ("dotted", "border-dotted")]

def fontWeights : List (String × String) := [
  ("100", "font-thin"), ("200", "font-extralight"), ("300", "font-light"), ("400", "font-normal"),
  ("500", "font-medium"), ("600", "font-semibold"), ("700", "font-bold"),
  ("800", "font-extrabold"), ("900", "font-black"), ("normal", "font-normal"),
  ("bold", "font-bold")]

/-- The stems of classes for paddings, margins, gaps and offsets. -/
def spacingStems : List (String × String) := [
  ("padding", "p"), ("paddingHorizontal", "px"), ("paddingVertical", "py"), ("paddingTop", "pt"),
  ("paddingBottom", "pb"), ("paddingLeft", "pl"), ("paddingRight", "pr"), ("paddingStart", "ps"),
  ("paddingEnd", "pe"), ("margin", "m"), ("marginHorizontal", "mx"), ("marginVertical", "my"),
  ("marginTop", "mt"), ("marginBottom", "mb"), ("marginLeft", "ml"), ("marginRight", "mr"),
  ("marginStart", "ms"), ("marginEnd", "me"), ("gap", "gap"), ("rowGap", "gap-y"),
  ("columnGap", "gap-x"), ("top", "top"), ("bottom", "bottom"), ("left", "left"),
  ("right", "right")]

/-- The stems of classes for widths and heights. -/
def sizingStems : List (String × String) := [
  ("width", "w"), ("height", "h"), ("minWidth", "min-w"), ("maxWidth", "max-w"),
  ("minHeight", "min-h"), ("maxHeight", "max-h")]

/-- The stems of classes for colours. -/
def colorStems : List (String × String) := [
  ("backgroundColor", "bg"), ("color", "text"), ("borderColor", "border"),
  ("borderTopColor", "border-t"), ("borderBottomColor", "border-b"),
  ("borderLeftColor", "border-l"), ("borderRightColor", "border-r")]

/-- The stems of classes for border widths. -/
def borderStems : List (String × String) := [
  ("borderWidth", "border"), ("borderTopWidth", "border-t"), ("borderBottomWidth", "border-b"),
  ("borderLeftWidth", "border-l"), ("borderRightWidth", "border-r")]

/-- The stems of classes for corner radii. -/
def radiusStems : List (String × String) := [
  ("borderRadius", "rounded"), ("borderTopLeftRadius", "rounded-tl"),
  ("borderTopRightRadius", "rounded-tr"), ("borderBottomLeftRadius", "rounded-bl"),
  ("borderBottomRightRadius", "rounded-br")]

end Restyle.Utility
