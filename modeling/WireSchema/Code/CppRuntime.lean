/-!
# Buffers of generated C++ code

A generated header brings its own encoder and decoder, the same in every header: values are appended
to a vector and read from a range of bytes, little-endian, with two-byte lengths.
-/

namespace WireSchema.CppCode

/-- The lines of the encoder and the decoder. -/
def runtime : List String :=
  [
    "namespace detail \x7b",
    "",
    "struct CapacityError : std::length_error \x7b",
    "    using std::length_error::length_error;",
    "\x7d;",
    "",
    "struct TruncatedError : std::out_of_range \x7b",
    "    using std::out_of_range::out_of_range;",
    "\x7d;",
    "",
    "inline bool little_endian() \x7b",
    "    const std::uint16_t probe = 1;",
    "    std::uint8_t first = 0;",
    "    std::memcpy(&first, &probe, 1);",
    "    return first == 1;",
    "\x7d",
    "",
    "class Encoder \x7b",
    "public:",
    "    explicit Encoder(std::size_t capacity) \x7b out_.reserve(capacity); \x7d",
    "",
    "    void write_bool(bool value) \x7b out_.push_back(value ? 1 : 0); \x7d",
    "",
    "    template <typename T>",
    "    void write_scalar(T value) \x7b",
    "        std::uint8_t raw[sizeof(T)];",
    "        std::memcpy(raw, &value, sizeof(T));",
    "        if (!little_endian()) \x7b",
    "            std::reverse(raw, raw + sizeof(T));",
    "        \x7d",
    "        out_.insert(out_.end(), raw, raw + sizeof(T));",
    "    \x7d",
    "",
    "    void write_len(std::size_t len) \x7b",
    "        if (len > 65535) \x7b",
    "            throw CapacityError(\"ffire: length \" + std::to_string(len) + \" exceeds 65535\");",
    "        \x7d",
    "        write_scalar<std::uint16_t>(static_cast<std::uint16_t>(len));",
    "    \x7d",
    "",
    "    void write_string(const std::string& value) \x7b",
    "        write_len(value.size());",
    "        out_.insert(out_.end(), value.begin(), value.end());",
    "    \x7d",
    "",
    "    template <typename T>",
    "    void write_bulk(const std::vector<T>& values) \x7b",
    "        write_len(values.size());",
    "        if (little_endian()) \x7b",
    "            const auto* bytes = reinterpret_cast<const std::uint8_t*>(values.data());",
    "            out_.insert(out_.end(), bytes, bytes + values.size() * sizeof(T));",
    "        \x7d else \x7b",
    "            for (T value : values) \x7b",
    "                write_scalar(value);",
    "            \x7d",
    "        \x7d",
    "    \x7d",
    "",
    "    std::vector<std::uint8_t> finish() \x7b return std::move(out_); \x7d",
    "",
    "private:",
    "    std::vector<std::uint8_t> out_;",
    "\x7d;",
    "",
    "class Decoder \x7b",
    "public:",
    "    Decoder(const std::uint8_t* data, std::size_t size) : data_(data), size_(size) \x7b\x7d",
    "",
    "    std::size_t remaining() const \x7b return size_ - pos_; \x7d",
    "",
    "    bool read_bool() \x7b",
    "        need(1);",
    "        return data_[pos_++] != 0;",
    "    \x7d",
    "",
    "    template <typename T>",
    "    T read_scalar() \x7b",
    "        need(sizeof(T));",
    "        std::uint8_t raw[sizeof(T)];",
    "        std::memcpy(raw, data_ + pos_, sizeof(T));",
    "        if (!little_endian()) \x7b",
    "            std::reverse(raw, raw + sizeof(T));",
    "        \x7d",
    "        T value;",
    "        std::memcpy(&value, raw, sizeof(T));",
    "        pos_ += sizeof(T);",
    "        return value;",
    "    \x7d",
    "",
    "    std::size_t read_len() \x7b return read_scalar<std::uint16_t>(); \x7d",
    "",
    "    std::string read_string() \x7b",
    "        std::size_t len = read_len();",
    "        need(len);",
    "        std::string value(reinterpret_cast<const char*>(data_ + pos_), len);",
    "        pos_ += len;",
    "        return value;",
    "    \x7d",
    "",
    "    template <typename T>",
    "    std::vector<T> read_bulk() \x7b",
    "        std::size_t len = read_len();",
    "        need(len * sizeof(T));",
    "        std::vector<T> values(len);",
    "        if (little_endian()) \x7b",
    "            if (len > 0) \x7b",
    "                std::memcpy(values.data(), data_ + pos_, len * sizeof(T));",
    "            \x7d",
    "            pos_ += len * sizeof(T);",
    "        \x7d else \x7b",
    "            for (auto& value : values) \x7b",
    "                value = read_scalar<T>();",
    "            \x7d",
    "        \x7d",
    "        return values;",
    "    \x7d",
    "",
    "private:",
    "    void need(std::size_t len) \x7b",
    "        if (remaining() < len) \x7b",
    "            throw TruncatedError(\"ffire: truncated input at offset \" + std::to_string(pos_));",
    "        \x7d",
    "    \x7d",
    "",
    "    const std::uint8_t* data_;",
    "    std::size_t size_;",
    "    std::size_t pos_ = 0;",
    "\x7d;",
    "",
    "\x7d  // namespace detail"
  ]

end WireSchema.CppCode
