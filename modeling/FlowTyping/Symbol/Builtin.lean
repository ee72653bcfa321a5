import FlowTyping.Symbol.Index
import FlowTyping.Symbol.Signature

/-!
# Built-in symbols

The functions, classes and constants that every program starts with.

* `Builtin.functions`: signatures of functions.
* `Builtin.classes`: classes with their methods.
* `Builtin.constants`: constants with their types.
* `Index.builtin`: the index that holds them all.
-/

namespace FlowTyping

namespace Builtin

def functions : List String := [
  "int strlen(string $string)",
  "int|false mb_strlen(string $string, ?string $encoding = null)",
  "string strtolower(string $string)",
  "string strtoupper(string $string)",
  "string ucfirst(string $string)",
  "string lcfirst(string $string)",
  "string trim(string $string, string $characters = \" \")",
  "string ltrim(string $string, string $characters = \" \")",
  "string rtrim(string $string, string $characters = \" \")",
  "string substr(string $string, int $offset, ?int $length = null)",
  "int|false strpos(string $haystack, string $needle, int $offset = 0)",
  "int|false stripos(string $haystack, string $needle, int $offset = 0)",
  "string|false strstr(string $haystack, string $needle, bool $before_needle = false)",
  "bool str_contains(string $haystack, string $needle)",
  "bool str_starts_with(string $haystack, string $needle)",
  "bool str_ends_with(string $haystack, string $needle)",
  "string|array str_replace(array|string $search, array|string $replace, string|array $subject, int &$count = null)",
  "string str_repeat(string $string, int $times)",
  "string str_pad(string $string, int $length, string $pad_string = \" \", int $pad_type = 1)",
  "array str_split(string $string, int $length = 1)",
  "string sprintf(string $format, mixed ...$values)",
  "int printf(string $format, mixed ...$values)",
  "string implode(array|string $separator, ?array $array = null)",
  "array explode(string $separator, string $string, int $limit = PHP_INT_MAX)",
  "string nl2br(string $string, bool $use_xhtml = true)",
  "string htmlspecialchars(string $string, int $flags = 3, ?string $encoding = null, bool $double_encode = true)",
  "string number_format(float $num, int $decimals = 0, ?string $decimal_separator = \".\", ?string $thousands_separator = \",\")",
  "string md5(string $string, bool $binary = false)",
  "string sha1(string $string, bool $binary = false)",
  "string base64_encode(string $string)",
  "string|false base64_decode(string $string, bool $strict = false)",
  "string uniqid(string $prefix = \"\", bool $more_entropy = false)",
  "int ord(string $character)",
  "string chr(int $codepoint)",
  "string dirname(string $path, int $levels = 1)",
  "string basename(string $path, string $suffix = \"\")",
  "int|false preg_match(string $pattern, string $subject, array &$matches = null, int $flags = 0, int $offset = 0)",
  "int|false preg_match_all(string $pattern, string $subject, array &$matches = null, int $flags = 0, int $offset = 0)",
  "string|array|null preg_replace(string|array $pattern, string|array $replacement, string|array $subject, int $limit = -1, int &$count = null)",
  "string|array|null preg_replace_callback(string|array $pattern, callable $callback, string|array $subject, int $limit = -1, int &$count = null, int $flags = 0)",
  "array|false preg_split(string $pattern, string $subject, int $limit = -1, int $flags = 0)",
  "string preg_quote(string $str, ?string $delimiter = null)",
  "int count(Countable|array $value, int $mode = 0)",
  "int sizeof(Countable|array $value, int $mode = 0)",
  "array array_merge(array ...$arrays)",
  "array array_keys(array $array, mixed $filter_value = null, bool $strict = false)",
  "array array_values(array $array)",
  "array array_map(?callable $callback, array $array, array ...$arrays)",
  "array array_filter(array $array, ?callable $callback = null, int $mode = 0)",
  "mixed array_reduce(array $array, callable $callback, mixed $initial = null)",
  "bool in_array(mixed $needle, array $haystack, bool $strict = false)",
  "int|string|false array_search(mixed $needle, array $haystack, bool $strict = false)",
  "bool array_key_exists(string|int $key, array $array)",
  "int|string|null array_key_first(array $array)",
  "int|string|null array_key_last(array $array)",
  "mixed array_pop(array &$array)",
  "mixed array_shift(array &$array)",
  "int array_push(array &$array, mixed ...$values)",
  "int array_unshift(array &$array, mixed ...$values)",
  "array array_slice(array $array, int $offset, ?int $length = null, bool $preserve_keys = false)",
  "array array_splice(array &$array, int $offset, ?int $length = null, mixed $replacement = [])",
  "array array_combine(array $keys, array $values)",
  "array array_flip(array $array)",
  "array array_unique(array $array, int $flags = 2)",
  "array array_reverse(array $array, bool $preserve_keys = false)",
  "int|float array_sum(array $array)",
  "bool array_walk(array|object &$array, callable $callback, mixed $arg = null)",
  "array range(string|int|float $start, string|int|float $end, int|float $step = 1)",
  "bool sort(array &$array, int $flags = 0)",
  "bool rsort(array &$array, int $flags = 0)",
  "bool usort(array &$array, callable $callback)",
  "bool uasort(array &$array, callable $callback)",
  "bool uksort(array &$array, callable $callback)",
  "bool ksort(array &$array, int $flags = 0)",
  "bool krsort(array &$array, int $flags = 0)",
  "bool asort(array &$array, int $flags = 0)",
  "bool arsort(array &$array, int $flags = 0)",
  "bool shuffle(array &$array)",
  "mixed end(array|object &$array)",
  "mixed reset(array|object &$array)",
  "mixed current(array|object $array)",
  "mixed key(array|object $array)",
  "array compact(mixed $var_name, mixed ...$var_names)",
  "int extract(array &$array, int $flags = 0, string $prefix = \"\")",
  "bool is_int(mixed $value)",
  "bool is_integer(mixed $value)",
  "bool is_long(mixed $value)",
  "bool is_float(mixed $value)",
  "bool is_double(mixed $value)",
  "bool is_string(mixed $value)",
  "bool is_bool(mixed $value)",
  "bool is_array(mixed $value)",
  "bool is_object(mixed $value)",
  "bool is_null(mixed $value)",
  "bool is_callable(mixed $value, bool $syntax_only = false, string &$callable_name = null)",
  "bool is_numeric(mixed $value)",
  "bool is_iterable(mixed $value)",
  "bool is_a(mixed $object_or_class, string $class, bool $allow_string = false)",
  "int intval(mixed $value, int $base = 10)",
  "float floatval(mixed $value)",
  "string strval(mixed $value)",
  "bool boolval(mixed $value)",
  "string gettype(mixed $value)",
  "bool settype(mixed &$var, string $type)",
  "string get_class(object $object = null)",
  "string|false get_parent_class(object|string $object_or_class = null)",
  "int|float abs(int|float $num)",
  "float floor(int|float $num)",
  "float ceil(int|float $num)",
  "float round(int|float $num, int $precision = 0, int $mode = 1)",
  "mixed max(mixed $value, mixed ...$values)",
  "mixed min(mixed $value, mixed ...$values)",
  "int rand(int $min = 0, int $max = PHP_INT_MAX)",
  "int mt_rand(int $min = 0, int $max = PHP_INT_MAX)",
  "int random_int(int $min, int $max)",
  "float sqrt(float $num)",
  "int|float pow(mixed $num, mixed $exponent)",
  "string|false json_encode(mixed $value, int $flags = 0, int $depth = 512)",
  "mixed json_decode(string $json, ?bool $associative = null, int $depth = 512, int $flags = 0)",
  "string serialize(mixed $value)",
  "mixed unserialize(string $data, array $options = [])",
  "int time()",
  "string date(string $format, ?int $timestamp = null)",
  "int|false strtotime(string $datetime, ?int $baseTimestamp = null)",
  "int|false mktime(int $hour, ?int $minute = null, ?int $second = null, ?int $month = null, ?int $day = null, ?int $year = null)",
  "string|float microtime(bool $as_float = false)",
  "string|false file_get_contents(string $filename, bool $use_include_path = false)",
  "int|false file_put_contents(string $filename, mixed $data, int $flags = 0)",
  "array|false file(string $filename, int $flags = 0)",
  "bool file_exists(string $filename)",
  "bool is_file(string $filename)",
  "bool is_dir(string $filename)",
  "bool mkdir(string $directory, int $permissions = 511, bool $recursive = false)",
  "bool unlink(string $filename)",
  "array|false scandir(string $directory, int $sorting_order = 0)",
  "string|false realpath(string $path)",
  "mixed fopen(string $filename, string $mode, bool $use_include_path = false)",
  "bool fclose(mixed $stream)",
  "string|false fgets(mixed $stream, ?int $length = null)",
  "int|false fwrite(mixed $stream, string $data, ?int $length = null)",
  "bool function_exists(string $function)",
  "bool class_exists(string $class, bool $autoload = true)",
  "bool method_exists(object|string $object_or_class, string $method)",
  "bool property_exists(object|string $object_or_class, string $property)",
  "bool define(string $constant_name, mixed $value, bool $case_insensitive = false)",
  "bool defined(string $constant_name)",
  "mixed constant(string $name)",
  "mixed call_user_func(callable $callback, mixed ...$args)",
  "mixed call_user_func_array(callable $callback, array $args)",
  "array func_get_args()",
  "int func_num_args()",
  "void var_dump(mixed $value, mixed ...$values)",
  "string|bool print_r(mixed $value, bool $return = false)",
  "string|null var_export(mixed $value, bool $return = false)",
  "string|false getenv(string $name)",
  "bool error_log(string $message, int $message_type = 0, ?string $destination = null, ?string $additional_headers = null)",
  "void trigger_error(string $message, int $error_level = 1024)",
  "bool headers_sent(string &$filename = null, int &$line = null)",
  "void header(string $header, bool $replace = true, int $response_code = 0)",
  "bool spl_autoload_register(?callable $callback = null, bool $throw = true, bool $prepend = false)",
  "string spl_object_hash(object $object)"]

def throwableMethods : List String := [
  "string getMessage()",
  "int getCode()",
  "string getFile()",
  "int getLine()",
  "array getTrace()",
  "string getTraceAsString()",
  "?Throwable getPrevious()"]

def exceptionMethods : List String := [
  "void __construct(string $message = \"\", int $code = 0, ?Throwable $previous = null)",
  "string getMessage()",
  "int getCode()",
  "string getFile()",
  "int getLine()",
  "array getTrace()",
  "string getTraceAsString()",
  "?Throwable getPrevious()"]

def dateTimeMethods : List String := [
  "void __construct(string $datetime = \"now\", ?DateTimeZone $timezone = null)",
  "string format(string $format)",
  "int getTimestamp()",
  "static|false modify(string $modifier)",
  "static setDate(int $year, int $month, int $day)",
  "static setTime(int $hour, int $minute, int $second = 0, int $microsecond = 0)",
  "static setTimestamp(int $timestamp)",
  "static static|false createFromFormat(string $format, string $datetime, ?DateTimeZone $timezone = null)"]

/-- The class with the given methods and constants, each given as text. -/
def classOf (info : ClassInfo) (methods : List String) (constants : List (String × String)) :
    ClassInfo :=
  let info := (methods.filterMap Signature.parse?).foldl ClassInfo.addMethod info
  constants.foldl (fun info (name, type) => info.addConstant ⟨name, Ty.parse? type⟩) info

def classes : List ClassInfo := [
  classOf { name := "Throwable", kind := .interface, interfaces := ["Stringable"] } throwableMethods
    [],
  classOf { name := "Stringable", kind := .interface } ["string __toString()"]
    [],
  classOf { name := "Traversable", kind := .interface } []
    [],
  classOf { name := "Iterator", kind := .interface, interfaces := ["Traversable"] } [
      "mixed current()",
      "mixed key()",
      "void next()",
      "void rewind()",
      "bool valid()"]
    [],
  classOf { name := "IteratorAggregate", kind := .interface, interfaces := ["Traversable"] } ["Traversable getIterator()"]
    [],
  classOf { name := "Countable", kind := .interface } ["int count()"]
    [],
  classOf { name := "ArrayAccess", kind := .interface } [
      "bool offsetExists(mixed $offset)",
      "mixed offsetGet(mixed $offset)",
      "void offsetSet(mixed $offset, mixed $value)",
      "void offsetUnset(mixed $offset)"]
    [],
  classOf { name := "DateTimeInterface", kind := .interface } ["string format(string $format)", "int getTimestamp()"]
    [("ATOM", "string"), ("ISO8601", "string"), ("RFC2822", "string")],
  classOf { name := "stdClass" } [] [],
  classOf { name := "Exception", interfaces := ["Throwable"] } exceptionMethods [],
  classOf { name := "Error", interfaces := ["Throwable"] } exceptionMethods [],
  classOf { name := "ErrorException", parent := some "Exception" } ["int getSeverity()"] [],
  classOf { name := "RuntimeException", parent := some "Exception" } [] [],
  classOf { name := "LogicException", parent := some "Exception" } [] [],
  classOf { name := "InvalidArgumentException", parent := some "LogicException" } [] [],
  classOf { name := "DomainException", parent := some "LogicException" } [] [],
  classOf { name := "OutOfBoundsException", parent := some "RuntimeException" } [] [],
  classOf { name := "UnexpectedValueException", parent := some "RuntimeException" } [] [],
  classOf { name := "TypeError", parent := some "Error" } [] [],
  classOf { name := "ValueError", parent := some "Error" } [] [],
  classOf { name := "Closure" } [
      "static Closure fromCallable(callable $callback)",
      "?Closure bindTo(?object $newThis, object|string|null $newScope = \"static\")",
      "static ?Closure bind(Closure $closure, ?object $newThis, object|string|null $newScope = \"static\")",
      "mixed call(object $newThis, mixed ...$args)"] [],
  classOf { name := "Generator", interfaces := ["Iterator"] } ["mixed current()", "mixed send(mixed $value)", "mixed getReturn()"] [],
  classOf { name := "DateTime", interfaces := ["DateTimeInterface"] } dateTimeMethods [],
  classOf { name := "DateTimeImmutable", interfaces := ["DateTimeInterface"] } dateTimeMethods [],
  classOf { name := "DateTimeZone" } ["string getName()"] [],
  classOf { name := "ArrayObject", interfaces := ["IteratorAggregate", "ArrayAccess", "Countable"] } [
      "void __construct(array|object $array = [], int $flags = 0)",
      "array getArrayCopy()",
      "int count()",
      "void append(mixed $value)"] [],
  classOf { name := "ArrayIterator", interfaces := ["Iterator", "ArrayAccess", "Countable"] } [
      "void __construct(array|object $array = [], int $flags = 0)",
      "array getArrayCopy()",
      "int count()"] [],
  classOf { name := "PDO" } [
      "void __construct(string $dsn, ?string $username = null, ?string $password = null, ?array $options = null)",
      "PDOStatement|false prepare(string $query, array $options = [])",
      "PDOStatement|false query(string $query, ?int $fetchMode = null)",
      "int|false exec(string $statement)",
      "string|false lastInsertId(?string $name = null)",
      "bool beginTransaction()",
      "bool commit()",
      "bool rollBack()",
      "string|false quote(string $string, int $type = 2)"] [],
  classOf { name := "PDOStatement", interfaces := ["IteratorAggregate"] } [
      "bool execute(?array $params = null)",
      "mixed fetch(int $mode = 0, int $cursorOrientation = 0, int $cursorOffset = 0)",
      "array fetchAll(int $mode = 0, mixed ...$args)",
      "mixed fetchColumn(int $column = 0)",
      "int rowCount()",
      "bool bindParam(string|int $param, mixed &$var, int $type = 2, int $maxLength = 0, mixed $driverOptions = null)",
      "bool bindValue(string|int $param, mixed $value, int $type = 2)",
      "bool closeCursor()"] []]

def constants : List (String × String) := [
  ("PHP_EOL", "string"),
  ("PHP_VERSION", "string"),
  ("PHP_OS", "string"),
  ("PHP_OS_FAMILY", "string"),
  ("DIRECTORY_SEPARATOR", "string"),
  ("PATH_SEPARATOR", "string"),
  ("PHP_INT_MAX", "int"),
  ("PHP_INT_MIN", "int"),
  ("PHP_INT_SIZE", "int"),
  ("PHP_FLOAT_EPSILON", "float"),
  ("PHP_FLOAT_MAX", "float"),
  ("M_PI", "float"),
  ("NAN", "float"),
  ("INF", "float"),
  ("E_ALL", "int"),
  ("E_ERROR", "int"),
  ("E_WARNING", "int"),
  ("E_NOTICE", "int"),
  ("E_DEPRECATED", "int"),
  ("E_USER_ERROR", "int"),
  ("E_USER_WARNING", "int"),
  ("E_USER_NOTICE", "int"),
  ("E_USER_DEPRECATED", "int"),
  ("PREG_SPLIT_NO_EMPTY", "int"),
  ("PREG_PATTERN_ORDER", "int"),
  ("PREG_SET_ORDER", "int"),
  ("JSON_THROW_ON_ERROR", "int"),
  ("JSON_PRETTY_PRINT", "int"),
  ("JSON_UNESCAPED_SLASHES", "int"),
  ("JSON_UNESCAPED_UNICODE", "int"),
  ("SORT_STRING", "int"),
  ("SORT_NUMERIC", "int"),
  ("SORT_REGULAR", "int"),
  ("COUNT_RECURSIVE", "int"),
  ("ENT_QUOTES", "int"),
  ("FILE_APPEND", "int"),
  ("LOCK_EX", "int"),
  ("__LINE__", "int"),
  ("__FILE__", "string"),
  ("__DIR__", "string"),
  ("__CLASS__", "string"),
  ("__FUNCTION__", "string"),
  ("__METHOD__", "string"),
  ("__NAMESPACE__", "string")]

end Builtin

def Index.builtin : Index :=
  let index := Builtin.classes.foldl Index.addClass {}
  let index := (Builtin.functions.filterMap Signature.parse?).foldl Index.addFunction index
  Builtin.constants.foldl (fun index (name, type) => index.addConstant ⟨name, Ty.parse? type⟩) index

end FlowTyping
