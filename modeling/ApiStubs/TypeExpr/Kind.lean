import ApiStubs.TypeExpr.Basic

/-!
# Kinds of types

What a canonical type name stands for.  The names with a meaning of their own are listed by kind;
every other name is that of a declared type.
-/

namespace ApiStubs

/-- What a type name stands for. -/
inductive TypeKind where
  | decimal | bigInteger | fileUpload | wideInteger | number | text | bool | void
  | map | list | wrapper | tuple | unknown | declared
deriving DecidableEq

namespace TypeKind

/-- Integers too wide for a floating-point number. -/
def wideIntegerNames : List String :=
  ["long",
   "java.lang.Long",
   "java.util.concurrent.atomic.AtomicLong"]

/-- Numbers that a floating-point number holds, and dates counted in milliseconds. -/
def numberNames : List String :=
  ["byte",
   "short",
   "int",
   "float",
   "double",
   "java.lang.Byte",
   "java.lang.Short",
   "java.lang.Integer",
   "java.lang.Float",
   "java.lang.Double",
   "java.lang.Number",
   "java.util.concurrent.atomic.AtomicInteger",
   "java.util.Date",
   "java.sql.Timestamp"]

/-- Texts, and what is written as one. -/
def textNames : List String :=
  ["char",
   "java.lang.Character",
   "java.lang.String",
   "java.lang.CharSequence",
   "java.lang.StringBuilder",
   "java.util.UUID",
   "java.time.LocalDate",
   "java.time.LocalDateTime",
   "java.time.LocalTime",
   "java.time.OffsetDateTime",
   "java.time.ZonedDateTime",
   "java.time.Instant",
   "java.time.Duration"]

/-- Truth values. -/
def boolNames : List String :=
  ["boolean",
   "java.lang.Boolean",
   "java.util.concurrent.atomic.AtomicBoolean"]

/-- The absence of a value. -/
def voidNames : List String :=
  ["void",
   "java.lang.Void"]

/-- Maps from keys to values. -/
def mapNames : List String :=
  ["java.util.Map",
   "java.util.HashMap",
   "java.util.LinkedHashMap",
   "java.util.TreeMap",
   "java.util.SortedMap",
   "java.util.NavigableMap",
   "java.util.Hashtable",
   "java.util.concurrent.ConcurrentMap",
   "java.util.concurrent.ConcurrentHashMap"]

/-- Sequences and sets, arrays among them. -/
def listNames : List String :=
  ["[]",
   "java.lang.Iterable",
   "java.util.Collection",
   "java.util.List",
   "java.util.ArrayList",
   "java.util.LinkedList",
   "java.util.Set",
   "java.util.HashSet",
   "java.util.LinkedHashSet",
   "java.util.TreeSet",
   "java.util.SortedSet",
   "java.util.Queue",
   "java.util.Deque",
   "java.util.ArrayDeque",
   "java.util.concurrent.CopyOnWriteArrayList"]

/-- Types whose values hold at most one value of their argument. -/
def wrapperNames : List String :=
  ["java.util.Optional",
   "java.util.concurrent.Future",
   "java.util.concurrent.CompletableFuture",
   "java.util.concurrent.CompletionStage",
   "java.util.concurrent.Callable",
   "java.lang.ref.WeakReference",
   "java.lang.ref.SoftReference",
   "org.springframework.http.HttpEntity",
   "org.springframework.http.ResponseEntity",
   "org.springframework.web.context.request.async.DeferredResult",
   "reactor.core.publisher.Mono"]

/-- Tuples. -/
def tupleNames : List String :=
  ["org.apache.commons.lang3.tuple.Pair",
   "org.apache.commons.lang3.tuple.ImmutablePair",
   "org.apache.commons.lang3.tuple.MutablePair",
   "org.apache.commons.lang3.tuple.Triple",
   "org.apache.commons.lang3.tuple.ImmutableTriple",
   "org.apache.commons.lang3.tuple.MutableTriple",
   "javafx.util.Pair"]

/-- Types about whose values nothing is known. -/
def unknownNames : List String :=
  ["?",
   "java.lang.Object",
   "java.io.Serializable",
   "com.fasterxml.jackson.databind.JsonNode",
   "com.fasterxml.jackson.databind.node.ObjectNode",
   "com.fasterxml.jackson.databind.node.ArrayNode",
   "com.alibaba.fastjson.JSONObject",
   "com.alibaba.fastjson.JSONArray"]

def table : List (TypeKind × List String) :=
  [(decimal, ["java.math.BigDecimal"]),
   (bigInteger, ["java.math.BigInteger"]),
   (fileUpload, ["org.springframework.web.multipart.MultipartFile"]),
   (wideInteger, wideIntegerNames), (number, numberNames), (text, textNames), (bool, boolNames),
   (void, voidNames), (map, mapNames), (list, listNames), (wrapper, wrapperNames),
   (tuple, tupleNames), (unknown, unknownNames)]

/-- The kind of a name: the first whose names hold it. -/
def ofName (name : String) : TypeKind :=
  match table.find? (·.2.contains name) with
  | some entry => entry.1
  | none => declared

def isNumeric (kind : TypeKind) : Bool :=
  kind = number || kind = wideInteger || kind = decimal || kind = bigInteger

end TypeKind

def TypeExpr.kind (t : TypeExpr) : TypeKind :=
  TypeKind.ofName t.name

/-- Types of parameters that the server supplies and no caller passes. -/
def injectedTypeNames : List String :=
  ["javax.servlet.http.HttpServletRequest",
   "javax.servlet.http.HttpServletResponse",
   "javax.servlet.http.HttpSession",
   "jakarta.servlet.http.HttpServletRequest",
   "jakarta.servlet.http.HttpServletResponse",
   "jakarta.servlet.http.HttpSession",
   "java.security.Principal",
   "java.util.Locale",
   "org.springframework.ui.Model",
   "org.springframework.ui.ModelMap",
   "org.springframework.validation.BindingResult",
   "org.springframework.validation.Errors",
   "org.springframework.web.context.request.WebRequest"]

end ApiStubs
